import Plainmark.Command.Arguments
import Std.Time

namespace Plainmark.Program

def depthLimit : Nat := 64

-- The files at and below a place, put on a disk. What cannot be read is left
-- out and counts as missing.
def load (disk : Disk) (place : Location) : Nat → IO Disk
  | 0 => return disk
  | depth + 1 => do
    let path := (← IO.currentDir) / String.ofList place.text
    if ← path.isDir then
      let mut loaded := disk.addFolders place
      for entry in ← path.readDir do
        loaded ← load loaded (place ++ [entry.fileName.toList]) depth
      return loaded
    else
      try
        let bytes ← IO.FS.readBinFile path
        return disk.addFile place bytes.toList 0o644
      catch _ => return disk

def store (before after : Disk) : IO Unit := do
  for (place,entry) in after.entries do
    match entry with
    | .file bytes _ =>
      if before.entry? place ≠ some entry then
        let path := (← IO.currentDir) / String.ofList place.text
        IO.FS.writeBinFile path (ByteArray.mk bytes.toArray)
    | .folder => pure ()

def environment : IO (Text → Option Text) := do
  let mut found : List (Text × Text) := []
  for field in Field.all do
    if let some value ← IO.getEnv (String.ofList field.variableName) then
      found := (field.variableName,value.toList) :: found
  return fun name => found.lookup name

def clock : IO Text := do
  let time ← Std.Time.PlainTime.now
  return (time.format "HH:mm:ss").toList

def places : Request → List Text
  | .batch _ path root _ => path :: root.toList
  | .resolve _ file root => file :: root.toList

def perform (request : Request) : IO UInt32 := do
  let here := (Path.ofText (← IO.currentDir).toString.toList).names
  let environment ← environment
  let start ← load (Disk.addFolders ⟨here,[]⟩ here) here depthLimit
  let configured := match Configuration.load start environment [] with
    | .ok settings => [settings.contentRoot]
    | .error _ => []
  let mut disk := start
  for path in places request ++ configured do
    let place := Location.ofPath here (Path.ofText path)
    if (Location.below? here place).isNone then disk ← load disk place depthLimit
  let outcome := Command.run ⟨disk,environment,"00000000".toList⟩ request
  store disk outcome.disk
  IO.eprint (String.ofList (outcome.errorText (← clock)))
  IO.print (String.ofList outcome.output)
  if let some crash := outcome.crash then
    IO.eprintln (String.ofList crash.message)
  return outcome.status.toUInt32

end Plainmark.Program

def main (arguments : List String) : IO UInt32 := do
  match Plainmark.Command.read (arguments.map String.toList) with
  | .ok request => Plainmark.Program.perform request
  | .error misuse =>
    IO.eprintln (String.ofList misuse.message)
    return 2
