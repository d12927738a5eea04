import Plainmark.Disk

namespace Plainmark.Disk
open Text

def isDocument (name : Text) : Bool :=
  match Path.extension? name with
  | some ending =>
    let lower := ending.map Char.toLower
    lower == "md".toList || lower == "mdx".toList
  | none => false

def documentsBelow (disk : Disk) (folder : Location) : List (List Text) :=
  disk.entries.filterMap fun (place,entry) =>
    match entry,Location.below? folder place with
    | .file ..,some names => if names.getLast?.any isDocument then some names else none
    | _,_ => none

-- By the first name that differs, and by code points within names. A path comes
-- before those below it.
def precedes (left right : List Text) : Bool := !decide (right < left)

def spelledBelow (disk : Disk) (path : Path) (folder : Location) : List Path :=
  disk.entries.filterMap fun (place,_) =>
    (Location.below? folder place).map fun names => ⟨path.anchor,path.names ++ names⟩

def overlong? (disk : Disk) (path : Path) (folder : Location) : Option Path :=
  (disk.spelledBelow path folder).find? fun entry =>
    decide (pathLimit < Utf8.size entry.text) && decide (Utf8.size entry.parent.text ≤ pathLimit)

-- The documents below a folder, in the order of their names; every entry there
-- has to be looked up for them. Anything else is taken as given, and whether it
-- can be read turns out later.
def discover (disk : Disk) (path : Path) : Except Trouble (List Path) := do
  match ← settle (disk.find path) with
  | some (folder,.folder) =>
    match disk.overlong? path folder with
    | some entry => throw (.access .nameTooLong entry)
    | none =>
      return ((disk.documentsBelow folder).mergeSort precedes).map fun names =>
        ⟨path.anchor,path.names ++ names⟩
  | _ => return [path]

end Plainmark.Disk
