import Plainmark.Text.Basic

namespace Plainmark

structure Line where
  body : Text
  ending : Text
deriving DecidableEq

end Plainmark

namespace Plainmark.Line
open Text

def breakRanges : List (Nat × Nat) :=
  [(0x0A,0x0D), (0x1C,0x1E), (0x85,0x85), (0x2028,0x2029)]

def isBreak (c : Char) : Bool := inRanges breakRanges c

def full (line : Line) : Text := line.body ++ line.ending

-- One character put in front of split lines. A carriage return joins a line
-- feed that stands right behind it.
def prepend (c : Char) (lines : List Line) : List Line :=
  if isBreak c then
    match c,lines with
    | '\r',⟨[],['\n']⟩ :: rest => ⟨[],['\r','\n']⟩ :: rest
    | _,_ => ⟨[],[c]⟩ :: lines
  else
    match lines with
    | [] => [⟨[c],[]⟩]
    | line :: rest => ⟨c :: line.body,line.ending⟩ :: rest

def split (text : Text) : List Line := text.foldr prepend []

theorem flatMap_prepend (c : Char) (lines : List Line) :
    (prepend c lines).flatMap full = c :: lines.flatMap full := by
  unfold prepend
  split
  · split <;> simp [full]
  · split <;> simp [full]

theorem flatMap_split (text : Text) : (split text).flatMap full = text := by
  induction text with
  | nil => rfl
  | cons c text ih => rw [split,List.foldr_cons,flatMap_prepend]; exact congrArg _ ih

end Plainmark.Line
