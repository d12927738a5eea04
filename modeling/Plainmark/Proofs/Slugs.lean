import Mathlib.Data.List.Basic
import Mathlib.Data.List.TakeWhile
import Plainmark.Slug

namespace Plainmark.Text

-- What raising a letter can bring into a text: the letters from A to Z, and
-- characters beyond the first 128.
def Raised (c : Char) : Prop := (0x41 ≤ c.toNat ∧ c.toNat ≤ 0x5A) ∨ 0x80 ≤ c.toNat

instance : DecidablePred Raised := fun c =>
  inferInstanceAs (Decidable ((0x41 ≤ c.toNat ∧ c.toNat ≤ 0x5A) ∨ 0x80 ≤ c.toNat))

def raisedCodes (first last : Nat) : Bool :=
  (0x41 ≤ first && last ≤ 0x5A) || (0x80 ≤ first && last < 0xD800) ||
    (0xDFFF < first && last < 0x110000)

theorem wideCapitals_raised : ∀ row ∈ wideCapitals, ∀ code ∈ row.2, raisedCodes code code = true := by
  decide +kernel

theorem caseRuns_raised : ∀ run ∈ caseRuns,
    raisedCodes run.target (run.target + (run.last - run.first)) = true := by
  decide +kernel

theorem toNat_raisedCodes {first last code : Nat} (codes : raisedCodes first last = true)
    (low : first ≤ code) (high : code ≤ last) : (Char.ofNat code).toNat = code := by
  simp only [raisedCodes,Bool.or_eq_true,Bool.and_eq_true,decide_eq_true_eq] at codes
  have valid : code.isValidChar := by
    simp only [Nat.isValidChar]
    omega
  obtain ⟨c,rfl⟩ : ∃ c : Char, c.toNat = code := ⟨Char.ofNatAux code valid,rfl⟩
  rw [Char.ofNat_toNat]

theorem raised_ofNat {first last code : Nat} (codes : raisedCodes first last = true)
    (low : first ≤ code) (high : code ≤ last) : Raised (Char.ofNat code) := by
  rw [Raised,toNat_raisedCodes codes low high]
  simp only [raisedCodes,Bool.or_eq_true,Bool.and_eq_true,decide_eq_true_eq] at codes
  omega

theorem capital_cases (c : Char) :
    (∃ codes, (c.toNat,codes) ∈ wideCapitals ∧ capital c = codes.map Char.ofNat) ∨
      (∃ run ∈ caseRuns, run.covers c.toNat = true ∧ capital c = [run.capital c.toNat]) ∨
        capital c = [c] := by
  unfold capital
  split
  · rename_i codes found
    obtain ⟨before,after,shape,_⟩ := List.lookup_eq_some_iff.mp found
    exact .inl ⟨codes,by simp [shape],rfl⟩
  · split
    · rename_i run found
      have covered := List.find?_some found
      exact .inr (.inl ⟨run,List.mem_of_find?_eq_some found,covered,rfl⟩)
    · exact .inr (.inr rfl)

theorem covers_iff {run : CaseRun} {code : Nat} : run.covers code = true ↔
    run.first ≤ code ∧ code ≤ run.last ∧ (code - run.first) % run.stride = 0 := by
  simp [CaseRun.covers,and_assoc]

theorem mem_capital {c d : Char} (member : d ∈ capital c) : d = c ∨ Raised d := by
  rcases capital_cases c with ⟨codes,listed,shape⟩ | ⟨run,listed,covered,shape⟩ | shape
  · rw [shape] at member
    obtain ⟨code,inside,rfl⟩ := List.mem_map.mp member
    exact .inr (raised_ofNat (wideCapitals_raised _ listed code inside)
      (Nat.le_refl _) (Nat.le_refl _))
  · obtain ⟨low,high,_⟩ := covers_iff.mp covered
    rw [shape,List.mem_singleton] at member
    subst d
    exact .inr (raised_ofNat (caseRuns_raised run listed) (Nat.le_add_right _ _) (by omega))
  · rw [shape] at member
    exact .inl (List.mem_singleton.mp member)

theorem capital_ne_nil (c : Char) : capital c ≠ [] := by
  have filled : ∀ row ∈ wideCapitals, row.2 ≠ [] := by decide +kernel
  rcases capital_cases c with ⟨codes,listed,shape⟩ | ⟨run,_,_,shape⟩ | shape
  · rw [shape]
    simpa using filled _ listed
  · exact shape ▸ List.cons_ne_nil _ _
  · exact shape ▸ List.cons_ne_nil _ _

theorem mem_capitalise {word : Text} {d : Char} (member : d ∈ capitalise word) :
    d ∈ word ∨ Raised d := by
  cases word with
  | nil => cases member
  | cons c rest =>
    rcases List.mem_append.mp member with front | behind
    · rcases mem_capital front with rfl | raised
      · exact .inl List.mem_cons_self
      · exact .inr raised
    · exact .inl (List.mem_cons_of_mem _ behind)

theorem mem_strip {text : Text} {c : Char} (member : c ∈ strip text) : c ∈ text := by
  have inner := (List.dropWhile_suffix _).subset (List.mem_reverse.mp member)
  exact (List.dropWhile_suffix _).subset (List.mem_reverse.mp inner)

theorem mem_splitBlanks {text word : Text} {c : Char} (piece : word ∈ splitBlanks text)
    (member : c ∈ word) : c ∈ text := by
  induction text using splitBlanks.induct generalizing word with
  | case1 =>
    rw [splitBlanks,List.mem_singleton] at piece
    simp [piece] at member
  | case2 d blank next rest inner ih =>
    simp only [splitBlanks,blank,if_true,inner] at piece
    exact List.mem_cons_of_mem _ (ih (by simpa [splitBlanks,inner] using piece) member)
  | case3 d blank next rest inner ih =>
    simp only [splitBlanks,blank,if_true,inner] at piece
    rcases List.mem_cons.mp piece with rfl | later
    · cases member
    · exact List.mem_cons_of_mem _ (ih (by simpa [splitBlanks,inner] using later) member)
  | case4 d blank =>
    simp only [splitBlanks,blank,if_true,List.mem_cons,List.not_mem_nil,or_false,or_self] at piece
    simp [piece] at member
  | case5 d rest blank none ih =>
    simp only [splitBlanks,blank,Bool.false_eq_true,if_false,none,List.mem_singleton] at piece
    subst word
    simp_all
  | case6 d rest blank first others shape ih =>
    simp only [splitBlanks,blank,Bool.false_eq_true,if_false,shape] at piece
    rcases List.mem_cons.mp piece with rfl | later
    · rcases List.mem_cons.mp member with rfl | inner
      · exact List.mem_cons_self
      · exact List.mem_cons_of_mem _ (ih (shape ▸ List.mem_cons_self) inner)
    · exact List.mem_cons_of_mem _ (ih (shape ▸ List.mem_cons_of_mem _ later) member)

theorem mem_joinWith {separator : Text} {pieces : List Text} {c : Char}
    (member : c ∈ joinWith separator pieces) : c ∈ separator ∨ ∃ piece ∈ pieces, c ∈ piece := by
  induction pieces using joinWith.induct with
  | case1 => cases member
  | case2 piece => exact .inr ⟨piece,List.mem_cons_self,member⟩
  | case3 piece next rest ih =>
    rw [joinWith,List.mem_append,List.mem_append] at member
    rcases member with (here | between) | later
    · exact .inr ⟨piece,List.mem_cons_self,here⟩
    · exact .inl between
    · rcases ih later with between | ⟨other,listed,inside⟩
      · exact .inl between
      · exact .inr ⟨other,List.mem_cons_of_mem _ listed,inside⟩

theorem strip_visible {text : Text} {c : Char} (ending : text.getLast? = some c)
    (visible : isBlank c = false) : (strip text).getLast? = some c := by
  have halves := List.takeWhile_append_dropWhile (p := isBlank) (l := text)
  cases shape : text.dropWhile isBlank with
  | nil =>
    rw [shape,List.append_nil] at halves
    have blank := List.mem_takeWhile_imp (p := isBlank) (l := text)
      (halves ▸ List.mem_of_getLast? ending)
    rw [visible] at blank
    cases blank
  | cons d rest =>
    have last : (d :: rest).getLast? = some c := by
      rw [← ending,← halves,shape,List.getLast?_append_of_ne_nil _ (List.cons_ne_nil _ _)]
    have front : (d :: rest).reverse.head? = some c := by rw [List.head?_reverse,last]
    rw [strip,shape]
    cases reversed : (d :: rest).reverse with
    | nil => rw [reversed] at front; cases front
    | cons e tail =>
      rw [reversed] at front
      cases front
      rw [List.dropWhile_cons,if_neg (by simp [visible]),List.getLast?_reverse]
      rfl

theorem splitBlanks_visible {text : Text} {c : Char} (ending : text.getLast? = some c)
    (visible : isBlank c = false) :
    ∃ words word, splitBlanks text = words ++ [word] ∧ word.getLast? = some c := by
  induction text with
  | nil => cases ending
  | cons d rest ih =>
    cases rest with
    | nil =>
      obtain rfl : d = c := Option.some.inj ending
      exact ⟨[],[d],by simp [splitBlanks,visible],rfl⟩
    | cons next rest =>
      obtain ⟨words,word,shape,last⟩ := ih (by rwa [List.getLast?_cons_cons] at ending)
      rw [splitBlanks]
      split
      · split
        · exact ⟨words,word,shape,last⟩
        · exact ⟨[] :: words,word,by rw [shape]; rfl,last⟩
      · rw [shape]
        cases words with
        | nil =>
          refine ⟨[],d :: word,rfl,?_⟩
          rw [List.getLast?_cons,last]
          rfl
        | cons first words => exact ⟨(d :: first) :: words,word,rfl,last⟩

theorem joinWith_concat (separator : Text) (pieces : List Text) (piece : Text) :
    ∃ front, joinWith separator (pieces ++ [piece]) = front ++ piece := by
  induction pieces with
  | nil => exact ⟨[],rfl⟩
  | cons first pieces ih =>
    obtain ⟨front,shape⟩ := ih
    cases pieces with
    | nil => exact ⟨first ++ separator,rfl⟩
    | cons second pieces =>
      refine ⟨first ++ separator ++ front,?_⟩
      rw [List.cons_append,List.cons_append,joinWith,← List.cons_append,shape]
      simp

end Plainmark.Text

namespace Plainmark.Slug
open Text

theorem mem_ofTerm {term : Text} {c : Char} (member : c ∈ ofTerm term) :
    c ∈ term ∨ c = '_' ∨ Raised c := by
  rcases mem_joinWith member with between | ⟨piece,listed,inside⟩
  · exact .inr (.inl (List.mem_singleton.mp between))
  · obtain ⟨word,split,rfl⟩ := List.mem_map.mp listed
    rcases mem_capitalise inside with kept | raised
    · exact .inl (mem_strip (mem_splitBlanks split kept))
    · exact .inr (.inr raised)

theorem ofTerm_getLast? {term : Text} {c : Char} (ending : term.getLast? = some c)
    (visible : isBlank c = false) :
    (ofTerm term).getLast? = some c ∨ (ofTerm term).getLast? = (capital c).getLast? := by
  obtain ⟨words,word,shape,last⟩ := splitBlanks_visible (strip_visible ending visible) visible
  obtain ⟨front,joined⟩ := joinWith_concat ['_'] (words.map capitalise) (capitalise word)
  have slug : ofTerm term = front ++ capitalise word := by
    rw [ofTerm,shape,List.map_append,List.map_singleton,joined]
  cases word with
  | nil => cases last
  | cons d rest =>
    cases rest with
    | nil =>
      obtain rfl : d = c := Option.some.inj last
      refine .inr ?_
      rw [slug,capitalise,List.append_nil,List.getLast?_append_of_ne_nil _ (capital_ne_nil d)]
    | cons next rest =>
      refine .inl ?_
      rw [List.getLast?_cons_cons] at last
      rw [slug,capitalise,List.getLast?_append_of_ne_nil _ (by simp),
        List.getLast?_append_of_ne_nil _ (List.cons_ne_nil _ _),last]

end Plainmark.Slug
