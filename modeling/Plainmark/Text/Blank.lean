import Plainmark.Text.Basic

namespace Plainmark.Text

-- The code points that separate words: spaces and separators of every script,
-- line breaks, tabulation, and the four information separators. Zero-width
-- spaces and the byte-order mark are not among them.
def blankRanges : List (Nat × Nat) := [
  (0x9,0xD), (0x1C,0x20), (0x85,0x85), (0xA0,0xA0), (0x1680,0x1680),
  (0x2000,0x200A), (0x2028,0x2029), (0x202F,0x202F), (0x205F,0x205F), (0x3000,0x3000)]

def isBlank (c : Char) : Bool := inRanges blankRanges c

def strip (text : Text) : Text :=
  ((text.dropWhile isBlank).reverse.dropWhile isBlank).reverse

-- The pieces between maximal runs of blanks. A run at either end leaves an
-- empty piece there; inside a text no piece is empty.
def splitBlanks : Text → List Text
  | [] => [[]]
  | c :: rest =>
    if isBlank c then
      match rest with
      | next :: _ => if isBlank next then splitBlanks rest else [] :: splitBlanks rest
      | [] => [[],[]]
    else
      match splitBlanks rest with
      | [] => [[c]]
      | piece :: pieces => (c :: piece) :: pieces

end Plainmark.Text
