import Plainmark.Location
import Plainmark.Text.Utf8

namespace Plainmark.Text

theorem splitAt_cons (separator c : Char) (text : Text) : ∃ piece pieces,
    splitAt separator text = piece :: pieces ∧ splitAt separator (c :: text) =
      if c = separator then [] :: piece :: pieces else (c :: piece) :: pieces := by
  obtain ⟨piece,pieces,shape⟩ := List.exists_cons_of_ne_nil (splitAt_ne_nil separator text)
  refine ⟨piece,pieces,shape,?_⟩
  rw [splitAt,shape]

theorem splitAt_append (separator : Char) (one two : Text) :
    splitAt separator (one ++ separator :: two) =
      splitAt separator one ++ splitAt separator two := by
  induction one with
  | nil => simp [splitAt]
  | cons c one ih =>
    obtain ⟨piece,pieces,split,whole⟩ := splitAt_cons separator c one
    rw [List.cons_append,whole,splitAt,ih,split]
    by_cases same : c = separator
    · rw [if_pos same,if_pos same]
      rfl
    · rw [if_neg same,if_neg same]
      rfl

theorem splitAt_whole {separator : Char} {text : Text} (absent : separator ∉ text) :
    splitAt separator text = [text] := by
  induction text with
  | nil => rfl
  | cons c text ih =>
    simp only [List.mem_cons,not_or] at absent
    rw [splitAt,if_neg (Ne.symm absent.1),ih absent.2]

theorem mem_splitAt {separator c : Char} {text : Text} (member : c ∈ text)
    (other : c ≠ separator) : ∃ piece ∈ splitAt separator text, c ∈ piece := by
  induction text with
  | nil => cases member
  | cons d text ih =>
    obtain ⟨piece,pieces,split,whole⟩ := splitAt_cons separator d text
    rw [whole]
    rcases List.mem_cons.mp member with rfl | later
    · rw [if_neg other]
      exact ⟨_,List.mem_cons_self,List.mem_cons_self⟩
    · obtain ⟨found,listed,inside⟩ := ih later
      rw [split] at listed
      split
      · exact ⟨found,List.mem_cons_of_mem _ listed,inside⟩
      · rcases List.mem_cons.mp listed with rfl | rest
        · exact ⟨_,List.mem_cons_self,List.mem_cons_of_mem _ inside⟩
        · exact ⟨found,List.mem_cons_of_mem _ rest,inside⟩

theorem mem_of_mem_splitAt {separator c : Char} {text piece : Text}
    (listed : piece ∈ splitAt separator text) (inside : c ∈ piece) : c ∈ text := by
  induction text generalizing piece with
  | nil =>
    rw [splitAt,List.mem_singleton] at listed
    rw [listed] at inside
    cases inside
  | cons d text ih =>
    obtain ⟨first,pieces,split,whole⟩ := splitAt_cons separator d text
    rw [whole] at listed
    rw [split] at ih
    split at listed
    · rcases List.mem_cons.mp listed with rfl | rest
      · cases inside
      · exact List.mem_cons_of_mem _ (ih rest inside)
    · rcases List.mem_cons.mp listed with rfl | rest
      · rcases List.mem_cons.mp inside with rfl | later
        · exact List.mem_cons_self
        · exact List.mem_cons_of_mem _ (ih List.mem_cons_self later)
      · exact List.mem_cons_of_mem _ (ih (List.mem_cons_of_mem _ rest) inside)

theorem not_mem_splitAt {separator : Char} {text piece : Text}
    (listed : piece ∈ splitAt separator text) : separator ∉ piece := by
  induction text generalizing piece with
  | nil =>
    rw [splitAt,List.mem_singleton] at listed
    rw [listed]
    exact List.not_mem_nil
  | cons c text ih =>
    obtain ⟨first,pieces,split,whole⟩ := splitAt_cons separator c text
    rw [split] at ih
    rw [whole] at listed
    by_cases same : c = separator
    · rw [if_pos same] at listed
      rcases List.mem_cons.mp listed with rfl | rest
      · exact List.not_mem_nil
      · exact ih rest
    · rw [if_neg same] at listed
      rcases List.mem_cons.mp listed with rfl | rest
      · rw [List.mem_cons,not_or]
        exact ⟨Ne.symm same,ih List.mem_cons_self⟩
      · exact ih (List.mem_cons_of_mem _ rest)

theorem splitAt_ending (separator : Char) (text : Text) {ending : Text}
    (absent : separator ∉ ending) : ∃ pieces last, separator ∉ last ∧
      splitAt separator (text ++ ending) = pieces ++ [last ++ ending] := by
  induction text with
  | nil => exact ⟨[],[],List.not_mem_nil,splitAt_whole absent⟩
  | cons c text ih =>
    obtain ⟨pieces,last,clear,split⟩ := ih
    by_cases same : c = separator
    · refine ⟨[] :: pieces,last,clear,?_⟩
      rw [List.cons_append,splitAt,if_pos same,split,List.cons_append]
    · cases pieces with
      | nil =>
        refine ⟨[],c :: last,?_,?_⟩
        · rw [List.mem_cons,not_or]
          exact ⟨Ne.symm same,clear⟩
        · rw [List.cons_append,splitAt,if_neg same,split]
          rfl
      | cons first pieces =>
        refine ⟨(c :: first) :: pieces,last,clear,?_⟩
        rw [List.cons_append,splitAt,if_neg same,split]
        rfl

theorem joinWith_snoc (separator : Text) {pieces : List Text} (filled : pieces ≠ [])
    (piece : Text) :
    joinWith separator (pieces ++ [piece]) = joinWith separator pieces ++ separator ++ piece := by
  induction pieces with
  | nil => exact absurd rfl filled
  | cons first pieces ih =>
    cases pieces with
    | nil => rfl
    | cons second pieces =>
      have rest := ih (by simp)
      simp only [List.cons_append,joinWith] at rest ⊢
      rw [rest]
      simp only [List.append_assoc]

namespace Utf8

theorem size_append (one two : Text) : size (one ++ two) = size one + size two := by
  rw [size,encode,List.flatMap_append,List.length_append]
  rfl

theorem size_pos {text : Text} (filled : text ≠ []) : 0 < size text := by
  cases text with
  | nil => exact absurd rfl filled
  | cons c text =>
    have first : 0 < (encodeChar c).length := by
      unfold encodeChar
      dsimp only
      split
      · simp
      · split
        · simp
        · split <;> simp
    rw [size,encode,List.flatMap_cons,List.length_append]
    omega

end Utf8

end Plainmark.Text

namespace Plainmark.Path
open Text

-- A name that stands in the text of a path as it is, and stays when it is read.
def Plain (name : Text) : Prop := name ≠ [] ∧ name ≠ dot ∧ '/' ∉ name

instance (name : Text) : Decidable (Plain name) := inferInstanceAs (Decidable (_ ∧ _))

theorem namesOf_append (one two : Text) :
    namesOf (one ++ '/' :: two) = namesOf one ++ namesOf two := by
  rw [namesOf,splitAt_append,List.filter_append]
  rfl

theorem namesOf_plain {name : Text} (plain : Plain name) : namesOf name = [name] := by
  rw [namesOf,splitAt_whole plain.2.2]
  exact List.filter_cons_of_pos (by simpa using ⟨plain.1,plain.2.1⟩)

theorem plain_of_mem_namesOf {text name : Text} (listed : name ∈ namesOf text) : Plain name := by
  obtain ⟨piece,kept⟩ := List.mem_filter.mp listed
  rw [decide_eq_true_eq] at kept
  exact ⟨kept.1,kept.2,not_mem_splitAt piece⟩

theorem namesOf_joinWith {names : List Text} (plain : ∀ name ∈ names, Plain name) :
    namesOf (joinWith ['/'] names) = names := by
  induction names with
  | nil => rfl
  | cons name names ih =>
    have first := namesOf_plain (plain name List.mem_cons_self)
    have rest := ih fun other member => plain other (List.mem_cons_of_mem _ member)
    cases names with
    | nil => exact first
    | cons next names =>
      rw [joinWith,List.append_assoc,List.singleton_append,namesOf_append,first,rest]
      rfl

theorem anchorOf_relative {text : Text} (relative : text.head? ≠ some '/') :
    anchorOf text = .relative := by
  unfold anchorOf
  split
  · exact absurd rfl relative
  · exact absurd rfl relative
  · exact absurd rfl relative
  · rfl

theorem anchorOf_rooted {text : Text} (rooted : text.head? = some '/') :
    anchorOf text ≠ .relative := by
  obtain ⟨rest,rfl⟩ := List.head?_eq_some_iff.mp rooted
  unfold anchorOf
  split
  · exact nofun
  · exact nofun
  · exact nofun
  · rename_i other
    exact absurd rfl (other rest)

theorem holdsNul_ofText (text : Text) : (ofText text).holdsNul = text.contains '\x00' := by
  rw [Bool.eq_iff_iff,holdsNul,List.any_eq_true,List.contains_iff_mem]
  constructor
  · rintro ⟨name,listed,inside⟩
    exact mem_of_mem_splitAt (List.mem_filter.mp listed).1 (List.contains_iff_mem.mp inside)
  · intro member
    obtain ⟨name,listed,inside⟩ := mem_splitAt member (by decide : '\x00' ≠ '/')
    refine ⟨name,List.mem_filter.mpr ⟨listed,?_⟩,List.contains_iff_mem.mpr inside⟩
    rw [decide_eq_true_eq]
    constructor
    · rintro rfl
      cases inside
    · rintro rfl
      exact absurd inside (by decide)

theorem plain_ofText {text : Text} (plain : '\x00' ∉ text) : (ofText text).holdsNul = false := by
  rw [holdsNul_ofText]
  simpa using plain

theorem size_parent_le {anchor : Anchor} {names : List Text} {name : Text} (filled : name ≠ []) :
    Utf8.size (Path.text ⟨anchor,names⟩) ≤ Utf8.size (Path.text ⟨anchor,names ++ [name]⟩) := by
  have whole : Path.text ⟨anchor,names ++ [name]⟩ =
      anchorText anchor ++ joinWith ['/'] (names ++ [name]) := by
    unfold Path.text
    cases anchor <;> cases names <;> rfl
  rw [whole,Utf8.size_append]
  cases names with
  | nil =>
    have one := Utf8.size_pos filled
    cases anchor with
    | relative =>
      change 1 ≤ 0 + Utf8.size name
      omega
    | root => exact Nat.le_add_right _ _
    | doubleRoot => exact Nat.le_add_right _ _
  | cons first names =>
    have above : Path.text ⟨anchor,first :: names⟩ =
        anchorText anchor ++ joinWith ['/'] (first :: names) := by
      unfold Path.text
      cases anchor <;> rfl
    rw [above,joinWith_snoc _ (by simp),Utf8.size_append,Utf8.size_append,Utf8.size_append]
    omega

end Plainmark.Path
