import Plainmark.Disk

namespace Plainmark.Disk
open Text

def temporaryName (tag name : Text) : Text := ['.'] ++ name ++ ['.'] ++ tag ++ ".tmp".toList

def temporaryPlace (disk : Disk) (tag : Text) (path : Path) : Location :=
  Location.ofPath disk.here path.parent ++ [temporaryName tag path.name]

-- The absolute path of the temporary file, in which two slashes at the front stay two.
def temporaryPath (disk : Disk) (tag : Text) (path : Path) : Path :=
  ⟨path.anchor.absolute,disk.temporaryPlace tag path⟩

def createTemporary (disk : Disk) (tag : Text) (path : Path) (bytes : Bytes) :
    Except Trouble Disk :=
  let place := disk.temporaryPlace tag path
  let refuse := fun obstacle => Except.error (.writing obstacle (disk.temporaryPath tag path) none)
  if path.holdsNul then .error .nul
  else if pathLimit < Utf8.size (disk.temporaryPath tag path).text then refuse .nameTooLong
  else
    match disk.walk [] place.dropLast with
    | .error obstacle => refuse obstacle
    | .ok folder =>
      match disk.entry? folder with
      | some .folder =>
        if nameLimit < Utf8.size (temporaryName tag path.name) then refuse .nameTooLong
        else .ok (disk.set place (.file bytes 0o600))
      | some (.file ..) => refuse .notFolder
      | none => refuse .missing

def copyMode (disk : Disk) (temporary : Location) (path : Path) : Except Trouble Disk := do
  match ← settle (disk.find path) with
  | some (_,.file _ mode) => return disk.setMode temporary mode
  | _ => return disk

-- The temporary file takes the place of what a path names. The last name has to
-- be one that a file can have, and no folder may stand there.
def moveOver (disk : Disk) (temporary : Location) (path : Path) : Except Trouble Disk :=
  let refuse := fun obstacle =>
    Except.error (.writing obstacle ⟨path.anchor.absolute,temporary⟩ (some path))
  match disk.locate path.parent with
  | .error obstacle => refuse obstacle
  | .ok folder =>
    match disk.entry? folder,path.names.getLast? with
    | some .folder,some name =>
      if name = Path.dots then refuse .busy
      else
        match disk.entry? (folder ++ [name]),disk.entry? temporary with
        | some .folder,_ => refuse .isFolder
        | _,some entry => .ok ((disk.set (folder ++ [name]) entry).erase temporary)
        | _,none => refuse .missing
    | some .folder,none => refuse .busy
    | some (.file ..),_ => refuse .notFolder
    | none,_ => refuse .missing

-- A text written in full or not at all: it goes to a temporary file next to its
-- place, and that file then takes the place. Whatever fails behind the first
-- step takes the temporary file away again.
def replace (disk : Disk) (tag : Text) (path : Path) (text : Text) : Disk × Except Trouble Unit :=
  match disk.createTemporary tag path (Utf8.encode text) with
  | .error trouble => (disk,.error trouble)
  | .ok created =>
    let temporary := disk.temporaryPlace tag path
    match do (← created.copyMode temporary path).moveOver temporary path with
    | .ok written => (written,.ok ())
    | .error trouble => (created.erase temporary,.error trouble)

end Plainmark.Disk
