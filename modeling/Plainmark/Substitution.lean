import Plainmark.Log
import Plainmark.Scan

namespace Plainmark

structure Logged where
  text : Text
  records : List Record
deriving DecidableEq

end Plainmark

namespace Plainmark.Substitution
open Text

def silent (text : Text) : Logged := ⟨text,[]⟩

def replacePiece (render : α → Logged) : Piece α → Text
  | .kept c => [c]
  | .found occurrence => (render occurrence).text

def pieceRecords (render : α → Logged) : Piece α → List Record
  | .kept _ => []
  | .found occurrence => (render occurrence).records

def isFound : Piece α → Bool
  | .kept _ => false
  | .found _ => true

-- The closing report of a substitution, which counts the occurrences even
-- where a rendering happens to equal its source.
def summary (what : Text) (count : Nat) : Record :=
  if count = 0 then ⟨.debug,.substitution,"No ".toList ++ what ++ " matches found".toList⟩
  else ⟨.info,.substitution,
    "Substituted ".toList ++ decimal count ++ [' '] ++ what ++ " match(es)".toList⟩

def replaceAll (pattern : Pattern α) (render : α → Logged) (text : Text) : Text :=
  (pattern.scan text).flatMap (replacePiece render)

def apply (pattern : Pattern α) (render : α → Logged) (what text : Text) : Logged :=
  let pieces := pattern.scan text
  ⟨pieces.flatMap (replacePiece render),
    pieces.flatMap (pieceRecords render) ++ [summary what (pieces.countP isFound)]⟩

end Plainmark.Substitution
