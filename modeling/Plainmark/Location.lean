import Plainmark.Path

namespace Plainmark

abbrev Location := List Text

end Plainmark

namespace Plainmark.Location

def step (place : Location) (name : Text) : Location :=
  if name = Path.dots then place.dropLast else place ++ [name]

def ofPath (here : Location) (path : Path) : Location :=
  path.names.foldl step (match path.anchor with
    | .relative => here
    | _ => [])

def text (place : Location) : Text := Path.text ⟨.root,place⟩

def below? : Location → Location → Option (List Text)
  | [],place => some place
  | _ :: _,[] => none
  | n :: root,m :: place => if n = m then below? root place else none

end Plainmark.Location

namespace Plainmark.Path

-- A path as seen from the content root. A path that does not lie there is
-- taken as spelled; so is one that cannot name a place at all.
def fromRoot (here : Location) (path root : Path) : Path :=
  if path.holdsNul || root.holdsNul then path
  else
    match Location.below? (Location.ofPath here root) (Location.ofPath here path) with
    | some names => ⟨.relative,names⟩
    | none => path

end Plainmark.Path
