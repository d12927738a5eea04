import Plainmark.Location
import Plainmark.Text.Quoted
import Plainmark.Text.Utf8

namespace Plainmark

inductive Entry where
  | file (bytes : Text.Bytes) (mode : Nat)
  | folder
deriving DecidableEq

-- A file system without links: the entries below the root, each at its place,
-- and the working directory. The root itself is always a folder.
structure Disk where
  here : Location
  entries : List (Location × Entry)
deriving DecidableEq

inductive Obstacle where
  | missing
  | notFolder
  | isFolder
  | nameTooLong
  | busy
deriving DecidableEq

-- Why a file is not processed. Writing speaks of the temporary file, and of the
-- target too once the temporary one stands.
inductive Trouble where
  | access (obstacle : Obstacle) (path : Path)
  | writing (obstacle : Obstacle) (temporary : Path) (target : Option Path)
  | nul
  | undecodable (fault : Text.Utf8.Fault)
deriving DecidableEq

end Plainmark

namespace Plainmark.Obstacle
open Text

def number : Obstacle → Nat
  | .missing => 2
  | .notFolder => 20
  | .isFolder => 21
  | .nameTooLong => 36
  | .busy => 16

def wording : Obstacle → Text
  | .missing => "No such file or directory".toList
  | .notFolder => "Not a directory".toList
  | .isFolder => "Is a directory".toList
  | .nameTooLong => "File name too long".toList
  | .busy => "Device or resource busy".toList

def message (obstacle : Obstacle) : Text :=
  "[Errno ".toList ++ decimal obstacle.number ++ "] ".toList ++ obstacle.wording ++ ": ".toList

end Plainmark.Obstacle

namespace Plainmark.Trouble
open Text

def message : Trouble → Text
  | .access obstacle path => obstacle.message ++ quoted path.text
  | .writing obstacle temporary none => obstacle.message ++ quoted temporary.text
  | .writing obstacle temporary (some target) =>
    obstacle.message ++ quoted temporary.text ++ " -> ".toList ++ quoted target.text
  | .nul => "embedded null byte".toList
  | .undecodable fault => fault.message

def ofOneFile : Trouble → Bool
  | .nul => false
  | _ => true

end Plainmark.Trouble

namespace Plainmark.Disk
open Text

def nameLimit : Nat := 255

def pathLimit : Nat := 4095

def entry? (disk : Disk) (place : Location) : Option Entry :=
  if place = [] then some .folder else disk.entries.lookup place

-- The place that names lead to from a folder. Two dots go up from a folder that
-- is there, so a name before them has to exist.
def walk (disk : Disk) (place : Location) : List Text → Except Obstacle Location
  | [] => .ok place
  | name :: names =>
    match disk.entry? place with
    | none => .error .missing
    | some (.file ..) => .error .notFolder
    | some .folder =>
      if name = Path.dots then walk disk place.dropLast names
      else if nameLimit < Utf8.size name then .error .nameTooLong
      else if (disk.entry? (place ++ [name])).isNone then .error .missing
      else walk disk (place ++ [name]) names

def start (disk : Disk) (path : Path) : Location :=
  match path.anchor with
  | .relative => disk.here
  | _ => []

def locate (disk : Disk) (path : Path) : Except Obstacle Location :=
  if pathLimit < Utf8.size path.text then .error .nameTooLong
  else disk.walk (disk.start path) path.names

def find (disk : Disk) (path : Path) : Except Trouble (Location × Entry) :=
  if path.holdsNul then .error .nul
  else
    match disk.locate path with
    | .error obstacle => .error (.access obstacle path)
    | .ok place =>
      match disk.entry? place with
      | some entry => .ok (place,entry)
      | none => .error (.access .missing path)

-- Questions about a path that names nothing have an answer. A name that is too
-- long for any file is no such path.
def settle (found : Except Trouble α) : Except Trouble (Option α) :=
  match found with
  | .ok value => .ok (some value)
  | .error (.access .missing _) => .ok none
  | .error (.access .notFolder _) => .ok none
  | .error .nul => .ok none
  | .error trouble => .error trouble

def isFile (disk : Disk) (path : Path) : Bool :=
  match disk.find path with
  | .ok (_,.file ..) => true
  | _ => false

def read (disk : Disk) (path : Path) : Except Trouble Bytes :=
  match disk.find path with
  | .ok (_,.file bytes _) => .ok bytes
  | .ok (_,.folder) => .error (.access .isFolder path)
  | .error trouble => .error trouble

def readText (disk : Disk) (path : Path) : Except Trouble Text := do
  match Utf8.decode (← disk.read path) with
  | .ok text => .ok text
  | .error fault => .error (.undecodable fault)

def set (disk : Disk) (place : Location) (entry : Entry) : Disk :=
  ⟨disk.here,(place,entry) :: disk.entries.filter fun other => other.1 ≠ place⟩

def erase (disk : Disk) (place : Location) : Disk :=
  ⟨disk.here,disk.entries.filter fun other => other.1 ≠ place⟩

def addFolders (disk : Disk) (place : Location) : Disk :=
  ((List.range place.length).map fun count => place.take (count + 1)).foldl
    (fun disk place => if (disk.entry? place).isSome then disk else disk.set place .folder) disk

def addFile (disk : Disk) (place : Location) (bytes : Bytes) (mode : Nat) : Disk :=
  (disk.addFolders place.dropLast).set place (.file bytes mode)

def setMode (disk : Disk) (place : Location) (mode : Nat) : Disk :=
  match disk.entry? place with
  | some (.file bytes _) => disk.set place (.file bytes mode)
  | _ => disk

end Plainmark.Disk
