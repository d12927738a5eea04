import Plainmark.Scan

namespace Plainmark

structure Link where
  label : Text
  target : Text
deriving DecidableEq

structure Image where
  alt : Text
  target : Text
deriving DecidableEq

end Plainmark

namespace Plainmark.Link
open Text

def source (link : Link) : Text :=
  '[' :: link.label ++ [']','('] ++ link.target ++ [')']

-- A link with a label whose target begins with the given path and goes on. The
-- label ends at the first bracket, the target at the first parenthesis.
def read? (start text : Text) : Option (Link × Text) := do
  let inside ← after? ['['] text
  let (label,rest) ← closedBy? ']' inside
  let address ← after? ['('] rest
  let remainder ← after? start address
  let (ending,rest) ← closedBy? ')' remainder
  if label = [] ∨ ending = [] then none
  else return (⟨label,start ++ ending⟩,rest)

theorem read?_canonical {start text rest : Text} {link : Link}
    (read : read? start text = some (link,rest)) : text = source link ++ rest := by
  simp only [read?,Option.bind_eq_bind,Option.bind_eq_some_iff] at read
  obtain ⟨inside,opened,⟨label,afterLabel⟩,labelled,address,parenthesis,remainder,begun,
    ⟨ending,afterTarget⟩,closed,read⟩ := read
  split at read
  · cases read
  · cases read
    dsimp only at parenthesis closed ⊢
    rw [after?_canonical opened,(closedBy?_canonical labelled).1,after?_canonical parenthesis,
      after?_canonical begun,(closedBy?_canonical closed).1]
    simp [source]

def pattern (start : Text) : Pattern Link where
  read? := read? start
  source := source
  canonical := read?_canonical
  visible := fun _ => by simp [source]

end Plainmark.Link

namespace Plainmark.Image
open Text

def source (image : Image) : Text :=
  ['!','['] ++ image.alt ++ [']','('] ++ image.target ++ [')']

def onWeb (target : Text) : Bool :=
  (after? "http://".toList target).isSome || (after? "https://".toList target).isSome

def read? (text : Text) : Option (Image × Text) := do
  let inside ← after? ['!','['] text
  let (alt,rest) ← closedBy? ']' inside
  let address ← after? ['('] rest
  let (target,rest) ← closedBy? ')' address
  if target = [] ∨ onWeb target then none
  else return (⟨alt,target⟩,rest)

theorem read?_canonical {text rest : Text} {image : Image}
    (read : read? text = some (image,rest)) : text = source image ++ rest := by
  simp only [read?,Option.bind_eq_bind,Option.bind_eq_some_iff] at read
  obtain ⟨inside,opened,⟨alt,afterAlt⟩,described,address,parenthesis,⟨target,afterTarget⟩,closed,
    read⟩ := read
  split at read
  · cases read
  · cases read
    dsimp only at parenthesis ⊢
    rw [after?_canonical opened,(closedBy?_canonical described).1,after?_canonical parenthesis,
      (closedBy?_canonical closed).1]
    simp [source]

def pattern : Pattern Image where
  read? := read?
  source := source
  canonical := read?_canonical
  visible := fun _ => by simp [source]

def hasScheme : Text → Bool
  | [] => false
  | c :: rest =>
    c.isAlpha && match rest.dropWhile fun c => c.isAlphanum || c == '+' || c == '.' || c == '-' with
      | ':' :: _ => true
      | _ => false

def anchored (target : Text) : Bool :=
  hasScheme target || target.head? == some '/' || target.head? == some '#'

def settled (folder target : Text) : Bool :=
  anchored target || target == folder || (after? (folder ++ ['/']) target).isSome

def moved (folder : Text) (image : Image) : Text :=
  if settled folder image.target then source image
  else source ⟨image.alt,folder ++ ['/'] ++ image.target⟩

end Plainmark.Image
