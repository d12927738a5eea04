import Mathlib.Data.Prod.Lex
import Mathlib.Order.Nat
import Plainmark.Text.Basic

namespace Plainmark.Text

-- Quotation marks that no macro will ever open an argument with. What stands
-- directly in front of a quotation mark in an attribute or behind a file name
-- never goes away: no removal ends in such a character and no insertion comes
-- behind one.
def isSpent (previous : Char) : Bool := previous == '=' || previous == 'd' || previous == 'D'

-- The quotation marks of a text that may still be used, seen from the character
-- in front of the text.
def openQuotes (previous : Char) : Text → Nat
  | [] => 0
  | c :: text => (if c = '"' ∧ isSpent previous = false then 1 else 0) + openQuotes c text

def isLoose (text : Text) : Bool :=
  match after? [']','('] text with
  | some target => (after? "assets/".toList target).isNone && (after? "https://".toList target).isNone
  | none => false

def looseTargets : Text → Nat
  | [] => 0
  | c :: text => (if isLoose (c :: text) then 1 else 0) + looseTargets text

-- What conversions use up. Macros take quotation marks, removals take braces,
-- and links and images take loose targets; each may add to what comes later in
-- this order, and to nothing before it.
abbrev Weight := Nat ×ₗ Nat ×ₗ Nat

def weight (text : Text) : Weight :=
  toLex (openQuotes ' ' text,toLex (text.count '\x7b',looseTargets text))

theorem weight_lt_of_quotes {next text : Text} (fewer : openQuotes ' ' next < openQuotes ' ' text) :
    weight next < weight text := Prod.Lex.toLex_lt_toLex.mpr (.inl fewer)

theorem weight_lt_of_braces {next text : Text} (quotes : openQuotes ' ' next ≤ openQuotes ' ' text)
    (fewer : next.count '\x7b' < text.count '\x7b') : weight next < weight text := by
  rcases Nat.lt_or_eq_of_le quotes with less | same
  · exact weight_lt_of_quotes less
  · exact Prod.Lex.toLex_lt_toLex.mpr
      (.inr ⟨same,Prod.Lex.toLex_lt_toLex.mpr (.inl fewer)⟩)

theorem weight_lt_of_targets {next text : Text} (quotes : openQuotes ' ' next = openQuotes ' ' text)
    (braces : next.count '\x7b' = text.count '\x7b')
    (fewer : looseTargets next < looseTargets text) : weight next < weight text :=
  Prod.Lex.toLex_lt_toLex.mpr
    (.inr ⟨quotes,Prod.Lex.toLex_lt_toLex.mpr (.inr ⟨braces,fewer⟩)⟩)

theorem openQuotes_append (previous : Char) (front text : Text) :
    openQuotes previous (front ++ text) =
      openQuotes previous front + openQuotes (front.getLastD previous) text := by
  induction front generalizing previous with
  | nil => simp [openQuotes]
  | cons c front ih =>
    rw [List.cons_append,openQuotes,openQuotes,ih,List.getLastD_cons,Nat.add_assoc]

theorem openQuotes_quote (previous : Char) (text : Text) : openQuotes previous ('"' :: text) =
    (if isSpent previous = true then 0 else 1) + openQuotes '"' text := by
  rw [openQuotes]
  cases isSpent previous <;> simp

theorem openQuotes_unquoted {text : Text} (unquoted : '"' ∉ text) (previous : Char) :
    openQuotes previous text = 0 := by
  induction text generalizing previous with
  | nil => rfl
  | cons c text ih =>
    simp only [List.mem_cons,not_or] at unquoted
    rw [openQuotes,ih unquoted.2,if_neg (fun both => unquoted.1 both.1.symm)]

theorem openQuotes_congr {one two : Char} (same : isSpent one = isSpent two) (text : Text) :
    openQuotes one text = openQuotes two text := by
  cases text with
  | nil => rfl
  | cons c text => rw [openQuotes,openQuotes,same]

theorem openQuotes_le {previous : Char} (unspent : isSpent previous = false) (other : Char)
    (text : Text) : openQuotes other text ≤ openQuotes previous text := by
  cases text with
  | nil => exact Nat.le_refl _
  | cons c text =>
    rw [openQuotes,openQuotes,unspent]
    split <;> split <;> simp_all

theorem openQuotes_exchange {old new : Text} {a b : Char} (unspentOld : isSpent a = false)
    (unspentNew : isSpent b = false)
    (fewer : ∀ previous, openQuotes previous (new ++ [b]) < openQuotes previous (old ++ [a]))
    (previous : Char) (front rest : Text) :
    openQuotes previous (front ++ ((new ++ [b]) ++ rest)) <
      openQuotes previous (front ++ ((old ++ [a]) ++ rest)) := by
  rw [openQuotes_append,openQuotes_append,openQuotes_append previous,openQuotes_append _ (old ++ [a]),
    List.getLastD_concat,List.getLastD_concat,
    openQuotes_congr (unspentNew.trans unspentOld.symm) rest]
  have less := fewer (front.getLastD previous)
  omega

theorem after?_behind (start : Text) (stop : Char) (absent : stop ∉ start) (text rest : Text) :
    (after? start (text ++ stop :: rest)).isNone = (after? start text).isNone := by
  induction start generalizing text with
  | nil => cases text <;> rfl
  | cons s start ih =>
    simp only [List.mem_cons,not_or] at absent
    cases text with
    | nil => simp [after?,absent.1]
    | cons c text =>
      rw [List.cons_append,after?,after?]
      split
      · exact ih absent.2 text
      · rfl

theorem isLoose_front (c : Char) (front one two : Text) :
    isLoose (c :: (front ++ ']' :: '(' :: one)) = isLoose (c :: (front ++ ']' :: '(' :: two)) := by
  cases front with
  | nil =>
    by_cases bracket : c = ']' <;> simp [isLoose,after?,bracket]
  | cons d front =>
    by_cases marks : c = ']' ∧ d = '('
    · obtain ⟨rfl,rfl⟩ := marks
      simp only [isLoose,after?,List.cons_append,if_true]
      have folder := after?_behind "assets/".toList ']' (by decide) front
      have web := after?_behind "https://".toList ']' (by decide) front
      rw [folder,folder,web,web]
    · by_cases bracket : c = ']'
      · have parenthesis : d ≠ '(' := fun same => marks ⟨bracket,same⟩
        simp [isLoose,after?,bracket,parenthesis]
      · simp [isLoose,after?,bracket]

theorem looseTargets_front {one two : Text}
    (fewer : looseTargets (']' :: '(' :: one) < looseTargets (']' :: '(' :: two)) (front : Text) :
    looseTargets (front ++ ']' :: '(' :: one) < looseTargets (front ++ ']' :: '(' :: two) := by
  induction front with
  | nil => exact fewer
  | cons c front ih =>
    rw [List.cons_append,List.cons_append,looseTargets,looseTargets,isLoose_front c front one two]
    omega

theorem isLoose_of_ne {c : Char} (other : c ≠ ']') (text : Text) : isLoose (c :: text) = false := by
  simp [isLoose,after?,other]

theorem looseTargets_without {front : Text} (absent : ']' ∉ front) (text : Text) :
    looseTargets (front ++ text) = looseTargets text := by
  induction front with
  | nil => rfl
  | cons c front ih =>
    simp only [List.mem_cons,not_or] at absent
    rw [List.cons_append,looseTargets,isLoose_of_ne (Ne.symm absent.1),ih absent.2]
    simp

theorem weight_lt_of_start (start : Text) (last : Char) (unspent : isSpent last = false)
    (unquoted : '"' ∉ start ++ [last]) (unbraced : '\x7b' ∉ start ++ [last])
    (unlabelled : ']' ∉ start ++ [last])
    (settles : ∀ target, isLoose (']' :: '(' :: (start ++ [last] ++ target)) = false)
    {target : Text} (loose : isLoose (']' :: '(' :: target) = true) (front : Text) :
    weight (front ++ ']' :: '(' :: (start ++ [last] ++ target)) <
      weight (front ++ ']' :: '(' :: target) := by
  refine weight_lt_of_targets ?_ ?_ (looseTargets_front ?_ front)
  · have marks : isSpent '(' = isSpent last := unspent.symm ▸ rfl
    rw [openQuotes_append,openQuotes_append,openQuotes,openQuotes,openQuotes_append,
      openQuotes_unquoted unquoted,List.getLastD_concat,openQuotes,openQuotes,
      openQuotes_congr marks]
    omega
  · rw [List.count_append,List.count_append,List.count_cons,List.count_cons,List.count_append,
      List.count_eq_zero.mpr unbraced,List.count_cons,List.count_cons]
    omega
  · have parenthesis : ∀ text, isLoose ('(' :: text) = false := isLoose_of_ne (by decide)
    rw [looseTargets,looseTargets,settles,parenthesis,looseTargets_without unlabelled,
      looseTargets,looseTargets,loose,parenthesis]
    simp

end Plainmark.Text
