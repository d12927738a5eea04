import Plainmark.Text.Basic

namespace Plainmark

-- A pattern reads one occurrence off the front of a text and answers it with
-- the remaining text. An occurrence spells exactly the characters that were
-- taken, and it takes at least one; a scan therefore loses nothing and ends.
structure Pattern (α : Type) where
  read? : Text → Option (α × Text)
  source : α → Text
  canonical : ∀ {text found rest}, read? text = some (found,rest) → text = source found ++ rest
  visible : ∀ {text found rest}, read? text = some (found,rest) → source found ≠ []

inductive Piece (α : Type) where
  | kept (c : Char)
  | found (occurrence : α)
deriving DecidableEq

end Plainmark

namespace Plainmark.Pattern

theorem read?_shorter (pattern : Pattern α) {text : Text} {occurrence : α} {rest : Text}
    (read : pattern.read? text = some (occurrence,rest)) : rest.length < text.length := by
  have positive := List.length_pos_iff.mpr (pattern.visible read)
  have same := congrArg List.length (pattern.canonical read)
  rw [List.length_append] at same
  omega

-- The occurrence at the leftmost position wins, and the next search starts
-- behind it. Pieces already met are held in reverse.
def scanOnto (pattern : Pattern α) (done : List (Piece α)) : Text → List (Piece α)
  | [] => done.reverse
  | c :: text =>
    match _read : pattern.read? (c :: text) with
    | some (occurrence,rest) => scanOnto pattern (.found occurrence :: done) rest
    | none => scanOnto pattern (.kept c :: done) text
termination_by text => text.length
decreasing_by
  · exact pattern.read?_shorter _read
  · exact Nat.lt_succ_self _

def scan (pattern : Pattern α) (text : Text) : List (Piece α) := scanOnto pattern [] text

theorem scanOnto_eq (pattern : Pattern α) (done : List (Piece α)) (text : Text) :
    scanOnto pattern done text = done.reverse ++ scan pattern text := by
  unfold scan
  induction size : text.length using Nat.strongRecOn generalizing done text with
  | ind n ih =>
    subst size
    cases text with
    | nil => simp [scanOnto]
    | cons c text =>
      rw [scanOnto]
      conv => rhs; rw [scanOnto]
      split
      · rename_i occurrence rest read
        have shorter := pattern.read?_shorter read
        rw [ih _ shorter _ _ rfl,ih _ shorter [.found occurrence] _ rfl]
        simp
      · rw [ih _ (Nat.lt_succ_self _) _ _ rfl,ih _ (Nat.lt_succ_self _) [.kept c] _ rfl]
        simp

@[simp] theorem scan_nil (pattern : Pattern α) : scan pattern [] = [] := by
  simp [scan,scanOnto]

theorem scan_found (pattern : Pattern α) {text : Text} {occurrence : α} {rest : Text}
    (read : pattern.read? text = some (occurrence,rest)) :
    scan pattern text = .found occurrence :: scan pattern rest := by
  cases text with
  | nil => exact absurd (pattern.read?_shorter read) (Nat.not_lt_zero _)
  | cons c text =>
    rw [scan,scanOnto]
    split
    · rename_i other
      rw [read] at other
      cases other
      rw [scanOnto_eq]
      rfl
    · rename_i other
      rw [read] at other
      cases other

theorem scan_kept (pattern : Pattern α) {c : Char} {text : Text}
    (read : pattern.read? (c :: text) = none) :
    scan pattern (c :: text) = .kept c :: scan pattern text := by
  rw [scan,scanOnto]
  split
  · rename_i other
    rw [read] at other
    cases other
  · rw [scanOnto_eq]
    rfl

end Plainmark.Pattern

namespace Plainmark.Piece

def source (pattern : Pattern α) : Piece α → Text
  | .kept c => [c]
  | .found occurrence => pattern.source occurrence

def spansFrom (pattern : Pattern α) (position : Nat) : List (Piece α) → List (Nat × Nat × α)
  | [] => []
  | .kept _ :: pieces => spansFrom pattern (position + 1) pieces
  | .found occurrence :: pieces =>
    let stop := position + (pattern.source occurrence).length
    (position,stop,occurrence) :: spansFrom pattern stop pieces

end Plainmark.Piece

namespace Plainmark.Pattern

def spans (pattern : Pattern α) (text : Text) : List (Nat × Nat × α) :=
  Piece.spansFrom pattern 0 (scan pattern text)

theorem scan_source (pattern : Pattern α) (text : Text) :
    (scan pattern text).flatMap (Piece.source pattern) = text := by
  induction size : text.length using Nat.strongRecOn generalizing text with
  | ind n ih =>
    subst size
    cases text with
    | nil => simp
    | cons c text =>
      cases read : pattern.read? (c :: text) with
      | none =>
        rw [scan_kept pattern read,List.flatMap_cons,ih _ (Nat.lt_succ_self _) _ rfl]
        rfl
      | some found =>
        rw [scan_found pattern read,List.flatMap_cons,ih _ (pattern.read?_shorter read) _ rfl]
        exact (pattern.canonical read).symm

end Plainmark.Pattern
