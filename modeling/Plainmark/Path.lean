import Plainmark.Text.Basic

namespace Plainmark

-- How a path's spelling begins. Exactly two slashes are kept apart from one,
-- three and more are one.
inductive Anchor where
  | relative
  | root
  | doubleRoot
deriving DecidableEq

-- A path is its anchor and the names between slashes. Empty names and single
-- dots are dropped when it is read; two dots are a name like any other.
structure Path where
  anchor : Anchor
  names : List Text
deriving DecidableEq

end Plainmark

namespace Plainmark.Anchor

def absolute : Anchor → Anchor
  | .doubleRoot => .doubleRoot
  | _ => .root

end Plainmark.Anchor

namespace Plainmark.Path
open Text

def dot : Text := ['.']

def dots : Text := ['.','.']

def anchorOf : Text → Anchor
  | '/' :: '/' :: '/' :: _ => .root
  | '/' :: '/' :: _ => .doubleRoot
  | '/' :: _ => .root
  | _ => .relative

def namesOf (text : Text) : List Text :=
  (splitAt '/' text).filter fun name => name ≠ [] ∧ name ≠ dot

def ofText (text : Text) : Path := ⟨anchorOf text,namesOf text⟩

def anchorText : Anchor → Text
  | .relative => []
  | .root => ['/']
  | .doubleRoot => ['/','/']

def text (path : Path) : Text :=
  match path.anchor,path.names with
  | .relative,[] => dot
  | anchor,names => anchorText anchor ++ joinWith ['/'] names

def join (path next : Path) : Path :=
  match next.anchor with
  | .relative => ⟨path.anchor,path.names ++ next.names⟩
  | _ => next

def parts (path : Path) : List Text :=
  match path.anchor with
  | .relative => path.names
  | anchor => anchorText anchor :: path.names

def depth (path : Path) : Nat := path.parts.length - 1

def name (path : Path) : Text := path.names.getLast?.getD []

def parent (path : Path) : Path := ⟨path.anchor,path.names.dropLast⟩

def holdsNul (path : Path) : Bool := path.names.any (·.contains '\x00')

def extension? (name : Text) : Option Text :=
  let reversed := name.reverse
  match reversed.dropWhile (· != '.') with
  | _ :: _ :: _ =>
    let ending := (reversed.takeWhile (· != '.')).reverse
    if ending = [] then none else some ending
  | _ => none

end Plainmark.Path
