import Plainmark.Proofs.Slugs

namespace Plainmark.Text

-- The words of a text: what stands between its blanks, and before and behind them. No
-- word is empty, and none has a blank in it.
inductive Worded : Text → List Text → Prop where
  | blank {gap : Text} (blanks : ∀ c ∈ gap, isBlank c = true) : Worded gap []
  | word {gap word rest : Text} {words : List Text} (blanks : ∀ c ∈ gap, isBlank c = true)
      (filled : word ≠ []) (solid : ∀ c ∈ word, isBlank c = false)
      (ends : ∀ c ∈ rest.head?, isBlank c = true) (onward : Worded rest words) :
      Worded (gap ++ (word ++ rest)) (word :: words)

variable {text gap word rest : Text} {words : List Text}

theorem worded_exists (text : Text) : ∃ words, Worded text words := by
  induction text with
  | nil => exact ⟨[],.blank fun _ member => absurd member List.not_mem_nil⟩
  | cons c text ih =>
    obtain ⟨words,worded⟩ := ih
    have alone : isBlank c = false → ∀ d ∈ [c], isBlank d = false := by
      intro solid d member
      rwa [List.mem_singleton.mp member]
    have more : ∀ {gap : Text}, isBlank c = true → (∀ d ∈ gap, isBlank d = true) →
        ∀ d ∈ c :: gap, isBlank d = true := fun blank blanks =>
      List.forall_mem_cons.mpr ⟨blank,blanks⟩
    -- A blank in front widens the first gap. Any other character begins a word, which is
    -- the first one where no gap is in front of that.
    cases blank : isBlank c with
    | true =>
      cases worded with
      | blank blanks => exact ⟨[],.blank (more blank blanks)⟩
      | word blanks filled solid ends onward =>
        exact ⟨_,.word (more blank blanks) filled solid ends onward⟩
    | false =>
      have none : ∀ d ∈ ([] : Text), isBlank d = true := fun _ member =>
        absurd member List.not_mem_nil
      cases worded with
      | blank blanks =>
        refine ⟨[[c]],.word none (List.cons_ne_nil _ _) (alone blank) ?_ (.blank blanks)⟩
        exact fun d head => blanks d (List.mem_of_mem_head? head)
      | @word gap word rest words blanks filled solid ends onward =>
        cases gap with
        | nil =>
          exact ⟨(c :: word) :: words,.word none (List.cons_ne_nil _ _)
            (List.forall_mem_cons.mpr ⟨blank,solid⟩) ends onward⟩
        | cons d gap =>
          refine ⟨[c] :: word :: words,.word none (List.cons_ne_nil _ _) (alone blank) ?_
            (.word blanks filled solid ends onward)⟩
          intro e head
          obtain rfl := Option.some.inj head
          exact blanks d List.mem_cons_self

theorem Worded.filled (worded : Worded text words) : ∀ word ∈ words, word ≠ [] := by
  induction worded with
  | blank blanks => exact fun _ member => absurd member List.not_mem_nil
  | word blanks filled solid ends onward ih => exact List.forall_mem_cons.mpr ⟨filled,ih⟩

theorem Worded.solid (worded : Worded text words) :
    ∀ word ∈ words, ∀ c ∈ word, isBlank c = false := by
  induction worded with
  | blank blanks => exact fun _ member => absurd member List.not_mem_nil
  | word blanks filled solid ends onward ih => exact List.forall_mem_cons.mpr ⟨solid,ih⟩

theorem worded_solid (filled : text ≠ []) (solid : ∀ c ∈ text, isBlank c = false) :
    Worded text [text] := by
  have worded : Worded ([] ++ (text ++ [])) [text] :=
    .word (fun _ member => absurd member List.not_mem_nil) filled solid nofun
      (.blank fun _ member => absurd member List.not_mem_nil)
  simpa using worded

def stripRight (text : Text) : Text := (text.reverse.dropWhile isBlank).reverse

theorem strip_eq (text : Text) : strip text = stripRight (text.dropWhile isBlank) := rfl

theorem stripRight_append (front back : Text) : stripRight (front ++ back) =
    if stripRight back = [] then stripRight front else front ++ stripRight back := by
  unfold stripRight
  rw [List.reverse_append,List.dropWhile_append]
  simp only [List.isEmpty_iff,List.reverse_eq_nil_iff]
  split
  · rfl
  · rw [List.reverse_append,List.reverse_reverse]

theorem stripRight_blank (blanks : ∀ c ∈ gap, isBlank c = true) : stripRight gap = [] := by
  rw [stripRight,List.reverse_eq_nil_iff,List.dropWhile_eq_nil_iff]
  exact fun c member => blanks c (List.mem_reverse.mp member)

theorem stripRight_solid (solid : ∀ c ∈ word, isBlank c = false) : stripRight word = word := by
  rw [stripRight,List.reverse_eq_iff]
  cases shape : word.reverse with
  | nil => rfl
  | cons c behind =>
    have member : c ∈ word := List.mem_reverse.mp (shape ▸ List.mem_cons_self)
    rw [List.dropWhile_cons_of_neg (by simp [solid c member])]

theorem stripRight_word (solid : ∀ c ∈ word, isBlank c = false) (rest : Text) :
    ∃ back, stripRight (word ++ rest) = word ++ back := by
  rw [stripRight_append,stripRight_solid solid]
  split
  · exact ⟨[],(List.append_nil word).symm⟩
  · exact ⟨_,rfl⟩

theorem splitBlanks_gap (blanks : ∀ c ∈ gap, isBlank c = true) (filled : gap ≠ []) {c : Char}
    (solid : isBlank c = false) (rest : Text) :
    splitBlanks (gap ++ c :: rest) = [] :: splitBlanks (c :: rest) := by
  induction gap with
  | nil => exact absurd rfl filled
  | cons d gap ih =>
    obtain ⟨blank,others⟩ := List.forall_mem_cons.mp blanks
    cases gap with
    | nil =>
      rw [List.singleton_append,splitBlanks]
      simp only [blank,solid,if_true,Bool.false_eq_true,if_false]
    | cons e gap =>
      rw [← ih others (List.cons_ne_nil _ _)]
      simp only [List.cons_append]
      rw [splitBlanks]
      simp only [blank,others e List.mem_cons_self,if_true]

theorem splitBlanks_word (solid : ∀ c ∈ word, isBlank c = false) {pieces : List Text}
    (split : splitBlanks rest = [] :: pieces) : splitBlanks (word ++ rest) = word :: pieces := by
  induction word with
  | nil => exact split
  | cons c word ih =>
    obtain ⟨visible,others⟩ := List.forall_mem_cons.mp solid
    rw [List.cons_append,splitBlanks.eq_def]
    simp only [visible,Bool.false_eq_true,if_false,ih others]

theorem Worded.split_behind (worded : Worded rest words) (filled : word ≠ [])
    (solid : ∀ c ∈ word, isBlank c = false) (ends : ∀ c ∈ rest.head?, isBlank c = true) :
    splitBlanks (stripRight (word ++ rest)) = word :: words := by
  induction worded generalizing word with
  | blank blanks =>
    have whole : splitBlanks (word ++ []) = [word] := splitBlanks_word solid rfl
    rw [List.append_nil] at whole
    rw [stripRight_append,if_pos (stripRight_blank blanks),stripRight_solid solid,whole]
  | @word gap next rest words blanks nextFilled nextSolid nextEnds onward ih =>
    obtain ⟨c,behind,rfl⟩ := List.exists_cons_of_ne_nil nextFilled
    have apart : gap ≠ [] := by
      rintro rfl
      have blank := ends c rfl
      rw [nextSolid c List.mem_cons_self] at blank
      cases blank
    -- The next word stays, so this gap is not at the end and parts two pieces.
    have split := ih nextFilled nextSolid nextEnds
    obtain ⟨back,stays⟩ := stripRight_word nextSolid rest
    have visible : stripRight (c :: behind ++ rest) ≠ [] := by
      rw [stays]
      exact List.cons_ne_nil _ _
    rw [← List.append_assoc,stripRight_append,if_neg visible,List.append_assoc]
    refine splitBlanks_word solid ?_
    rw [← split,stays]
    exact splitBlanks_gap blanks apart (nextSolid c List.mem_cons_self) _

theorem Worded.split_strip (worded : Worded text words) :
    splitBlanks (strip text) = if words = [] then [[]] else words := by
  rw [strip_eq]
  cases worded with
  | blank blanks => rw [List.dropWhile_eq_nil_iff.mpr blanks]; rfl
  | @word gap word rest words blanks filled solid ends onward =>
    obtain ⟨c,behind,rfl⟩ := List.exists_cons_of_ne_nil filled
    have visible : ¬ isBlank c = true := by simp [solid c List.mem_cons_self]
    rw [List.dropWhile_append_of_pos blanks,List.cons_append,List.dropWhile_cons_of_neg visible,
      if_neg (List.cons_ne_nil _ _)]
    exact onward.split_behind filled solid ends

theorem Worded.unique {others : List Text} (worded : Worded text words)
    (other : Worded text others) : others = words := by
  have same := other.split_strip.symm.trans worded.split_strip
  have unlike : ∀ {found : List Text}, (∀ word ∈ found, word ≠ []) → [[]] ≠ found := by
    rintro found filled rfl
    exact filled [] (List.mem_singleton_self _) rfl
  split at same
  · rename_i none
    split at same
    · rename_i nothing
      rw [none,nothing]
    · exact absurd same (unlike worded.filled)
  · split at same
    · exact absurd same.symm (unlike other.filled)
    · exact same

def visibleCodes (first last : Nat) : Bool :=
  blankRanges.all fun range => Nat.blt last range.1 || Nat.blt range.2 first

theorem wideCapitals_visible : ∀ row ∈ wideCapitals, ∀ code ∈ row.2,
    visibleCodes code code = true := by
  decide +kernel

theorem caseRuns_visible : ∀ run ∈ caseRuns,
    visibleCodes run.target (run.target + (run.last - run.first)) = true := by
  decide +kernel

theorem visible_ofNat {first last code : Nat} (codes : raisedCodes first last = true)
    (visible : visibleCodes first last = true) (low : first ≤ code) (high : code ≤ last) :
    isBlank (Char.ofNat code) = false := by
  rw [visibleCodes,List.all_eq_true] at visible
  rw [isBlank,inRanges,List.any_eq_false,toNat_raisedCodes codes low high]
  intro range member
  have apart := visible range member
  simp only [Bool.or_eq_true,Nat.blt_eq] at apart
  simp only [Bool.and_eq_true,decide_eq_true_eq]
  omega

theorem capital_solid {c : Char} (solid : isBlank c = false) :
    ∀ d ∈ capital c, isBlank d = false := by
  intro d member
  rcases capital_cases c with ⟨codes,listed,shape⟩ | ⟨run,listed,covered,shape⟩ | shape
  · rw [shape] at member
    obtain ⟨code,inside,rfl⟩ := List.mem_map.mp member
    exact visible_ofNat (wideCapitals_raised _ listed code inside)
      (wideCapitals_visible _ listed code inside) (Nat.le_refl _) (Nat.le_refl _)
  · obtain ⟨low,high,_⟩ := covers_iff.mp covered
    rw [shape,List.mem_singleton] at member
    subst d
    exact visible_ofNat (caseRuns_raised run listed) (caseRuns_visible run listed)
      (Nat.le_add_right _ _) (by omega)
  · rw [shape,List.mem_singleton] at member
    rwa [member]

def CaseRun.codes (run : CaseRun) (start : Nat) : List Nat :=
  (List.range ((run.last - run.first) / run.stride + 1)).map fun step =>
    start + step * run.stride

def smallCodes : List Nat :=
  caseRuns.flatMap (fun run => run.codes run.first) ++ wideCapitals.map Prod.fst

def leadingCodes : List Nat :=
  caseRuns.flatMap (fun run => run.codes run.target) ++ wideCapitals.filterMap fun row => row.2.head?

-- A set of codes as the bits of one number, so that two of them are compared at once.
def codeSet (codes : List Nat) : Nat := codes.foldr (fun code set => set ||| 1 <<< code) 0

theorem testBit_codeSet {codes : List Nat} {code : Nat} (member : code ∈ codes) :
    (codeSet codes).testBit code = true := by
  induction codes with
  | nil => cases member
  | cons other codes ih =>
    rw [codeSet,List.foldr_cons,Nat.testBit_or,Bool.or_eq_true]
    rcases List.mem_cons.mp member with rfl | later
    · exact .inr (by rw [Nat.one_shiftLeft,Nat.testBit_two_pow_self])
    · exact .inl (ih later)

theorem smallCodes_apart : codeSet smallCodes &&& codeSet leadingCodes = 0 := by decide +kernel

theorem not_small_of_leading {code : Nat} (leading : code ∈ leadingCodes) :
    code ∉ smallCodes := by
  intro small
  have both := congrArg (Nat.testBit · code) smallCodes_apart
  simp [testBit_codeSet leading,testBit_codeSet small] at both

theorem codes_of_covers {run : CaseRun} {code : Nat} (covered : run.covers code = true)
    (start : Nat) : start + (code - run.first) ∈ run.codes start := by
  obtain ⟨_,high,onStride⟩ := covers_iff.mp covered
  have strides : (code - run.first) / run.stride * run.stride = code - run.first :=
    Nat.div_mul_cancel (Nat.dvd_of_mod_eq_zero onStride)
  have steps : (code - run.first) / run.stride ≤ (run.last - run.first) / run.stride :=
    Nat.div_le_div_right (by omega)
  refine List.mem_map.mpr ⟨(code - run.first) / run.stride,?_,by rw [strides]⟩
  exact List.mem_range.mpr (Nat.lt_succ_of_le steps)

theorem capital_of_not_small {c : Char} (other : c.toNat ∉ smallCodes) : capital c = [c] := by
  rcases capital_cases c with ⟨codes,listed,_⟩ | ⟨run,listed,covered,_⟩ | shape
  · exact absurd (List.mem_append_right _ (List.mem_map_of_mem listed)) other
  · have low := (covers_iff.mp covered).1
    have inRun := codes_of_covers covered run.first
    rw [Nat.add_sub_cancel' low] at inRun
    exact absurd (List.mem_append_left _ (List.mem_flatMap.mpr ⟨run,listed,inRun⟩)) other
  · exact shape

theorem capital_stable (c : Char) : ∀ d ∈ (capital c).head?, capital d = [d] := by
  intro d head
  rcases capital_cases c with ⟨codes,listed,shape⟩ | ⟨run,listed,covered,shape⟩ | shape
  · rw [shape,List.head?_map] at head
    obtain ⟨code,first,rfl⟩ := Option.map_eq_some_iff.mp head
    have leading : code ∈ leadingCodes :=
      List.mem_append_right _ (List.mem_filterMap.mpr ⟨_,listed,first⟩)
    apply capital_of_not_small
    rw [toNat_raisedCodes (wideCapitals_raised _ listed code (List.mem_of_mem_head? first))
      (Nat.le_refl _) (Nat.le_refl _)]
    exact not_small_of_leading leading
  · obtain ⟨low,high,_⟩ := covers_iff.mp covered
    rw [shape] at head
    obtain rfl := Option.some.inj head
    have leading : run.target + (c.toNat - run.first) ∈ leadingCodes :=
      List.mem_append_left _ (List.mem_flatMap.mpr ⟨run,listed,codes_of_covers covered _⟩)
    apply capital_of_not_small
    rw [CaseRun.capital,toNat_raisedCodes (caseRuns_raised run listed) (Nat.le_add_right _ _)
      (by omega)]
    exact not_small_of_leading leading
  · rw [shape] at head
    obtain rfl := Option.some.inj head
    exact shape

end Plainmark.Text

namespace Plainmark.Slug
open Text
variable {term : Text} {words : List Text}

def Raises (word piece : Text) : Prop := ∃ c rest, word = c :: rest ∧ piece = capital c ++ rest

theorem raises_capitalise (filled : ∀ word ∈ words, word ≠ []) :
    List.Forall₂ Raises words (words.map capitalise) := by
  induction words with
  | nil => exact .nil
  | cons word words ih =>
    obtain ⟨first,others⟩ := List.forall_mem_cons.mp filled
    obtain ⟨c,rest,rfl⟩ := List.exists_cons_of_ne_nil first
    exact .cons ⟨c,rest,rfl,rfl⟩ (ih others)

theorem ofTerm_worded (worded : Worded term words) :
    ofTerm term = joinWith ['_'] (words.map capitalise) := by
  rw [ofTerm,worded.split_strip]
  split
  · rename_i none
    rw [none]
    rfl
  · rfl

theorem capitalise_solid {word : Text} (solid : ∀ c ∈ word, isBlank c = false) :
    ∀ c ∈ capitalise word, isBlank c = false := by
  cases word with
  | nil => exact fun _ member => absurd member List.not_mem_nil
  | cons d rest =>
    obtain ⟨visible,others⟩ := List.forall_mem_cons.mp solid
    intro c member
    rcases List.mem_append.mp member with raised | kept
    · exact capital_solid visible c raised
    · exact others c kept

theorem ofTerm_solid (term : Text) : ∀ c ∈ ofTerm term, isBlank c = false := by
  obtain ⟨words,worded⟩ := worded_exists term
  rw [ofTerm_worded worded]
  intro c member
  rcases mem_joinWith member with between | ⟨piece,listed,inside⟩
  · rw [List.mem_singleton.mp between]
    rfl
  · obtain ⟨word,among,rfl⟩ := List.mem_map.mp listed
    exact capitalise_solid (worded.solid word among) c inside

theorem joinWith_begins (separator : Text) (c : Char) (piece : Text) (pieces : List Text) :
    ∃ back, joinWith separator ((c :: piece) :: pieces) = c :: back := by
  cases pieces with
  | nil => exact ⟨piece,rfl⟩
  | cons next pieces => exact ⟨piece ++ separator ++ joinWith separator (next :: pieces),rfl⟩

theorem ofTerm_head (term : Text) : ∀ d ∈ (ofTerm term).head?, capital d = [d] := by
  obtain ⟨words,worded⟩ := worded_exists term
  intro d head
  rw [ofTerm_worded worded] at head
  cases worded with
  | blank blanks => cases head
  | @word gap word rest words blanks filled solid ends onward =>
    obtain ⟨c,behind,rfl⟩ := List.exists_cons_of_ne_nil filled
    obtain ⟨e,more,shape⟩ := List.exists_cons_of_ne_nil (capital_ne_nil c)
    have first : capitalise (c :: behind) = e :: (more ++ behind) := by
      rw [capitalise,shape]
      rfl
    obtain ⟨back,whole⟩ := joinWith_begins ['_'] e (more ++ behind) (words.map capitalise)
    rw [List.map_cons,first,whole] at head
    obtain rfl := Option.some.inj head
    exact capital_stable c e (by rw [shape]; rfl)

theorem ofTerm_again (term : Text) : ofTerm (ofTerm term) = ofTerm term := by
  have solid := ofTerm_solid term
  have stable := ofTerm_head term
  generalize ofTerm term = slug at solid stable
  cases slug with
  | nil => rfl
  | cons d rest =>
    rw [ofTerm_worded (worded_solid (List.cons_ne_nil d rest) solid),List.map_singleton,joinWith,
      capitalise,stable d rfl]
    rfl

-- A slug is a normal form: nothing of it is a blank, it is the slug of itself, and it is
-- told by the words of its term alone, which it joins by single underscores, each with
-- its first character raised.
theorem slug_normal_form (term : Text) :
    (∀ c ∈ ofTerm term, isBlank c = false) ∧ ofTerm (ofTerm term) = ofTerm term ∧
      ∃ words, (∀ others, Worded term others ↔ others = words) ∧
        (∀ other, Worded other words → ofTerm other = ofTerm term) ∧
        ∃ pieces, List.Forall₂ Raises words pieces ∧ ofTerm term = joinWith ['_'] pieces := by
  obtain ⟨words,worded⟩ := worded_exists term
  refine ⟨ofTerm_solid term,ofTerm_again term,words,?_,?_,_,raises_capitalise worded.filled,
    ofTerm_worded worded⟩
  · exact fun others => ⟨worded.unique,fun same => same ▸ worded⟩
  · exact fun other alike => (ofTerm_worded alike).trans (ofTerm_worded worded).symm

end Plainmark.Slug
