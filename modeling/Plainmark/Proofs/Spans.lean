import Mathlib.Data.List.Pairwise
import Plainmark.Proofs.Grammar
import Plainmark.Proofs.Navigation
import Plainmark.Proofs.Rewriting

namespace Plainmark.Text

theorem mark_cases (one : Text) {two front behind : Text} {mark : Char}
    (same : one ++ two = front ++ mark :: behind) :
    (∃ inner, one = front ++ mark :: inner ∧ behind = inner ++ two) ∨
      ∃ inner, front = one ++ inner ∧ two = inner ++ mark :: behind := by
  rcases List.append_eq_append_iff.mp same with ⟨inner,first,second⟩ | ⟨inner,first,second⟩
  · exact .inr ⟨inner,first,second⟩
  · cases inner with
    | nil =>
      rw [List.append_nil] at first
      exact .inr ⟨[],by rw [first,List.append_nil],second.symm⟩
    | cons c inner =>
      rw [List.cons_append] at second
      cases second
      exact .inl ⟨inner,first,rfl⟩

theorem mark_behind (one : Text) {two front behind : Text} {mark : Char}
    (same : one ++ two = front ++ mark :: behind) (absent : mark ∉ one) :
    ∃ inner, front = one ++ inner ∧ two = inner ++ mark :: behind := by
  rcases mark_cases one same with ⟨inner,within,_⟩ | later
  · exact absurd (by simp [within]) absent
  · exact later

theorem mark_unique {one two front behind : Text} {mark : Char}
    (same : one ++ mark :: two = front ++ mark :: behind) (before : mark ∉ one)
    (ahead : mark ∉ front) : one = front ∧ two = behind := by
  have first := closedBy?_append two before
  rw [same,closedBy?_append behind ahead] at first
  cases first
  exact ⟨rfl,rfl⟩

def slice (text : Text) (start stop : Nat) : Text := (text.drop start).take (stop - start)

-- A text with another text in place of each of some spans. The text given is
-- the one behind a position, and the spans stand in order.
def respan (position : Nat) (text : Text) : List (Nat × Nat × Text) → Text
  | [] => text
  | (start,stop,new) :: spans =>
    text.take (start - position) ++ new ++ respan stop (text.drop (stop - position)) spans

structure Ordered (size : Nat) (spans : List (Nat × Nat × α)) : Prop where
  within : ∀ span ∈ spans, span.1 < span.2.1 ∧ span.2.1 ≤ size
  apart : spans.Pairwise fun one next => one.2.1 ≤ next.1

def Covered (spans : List (Nat × Nat × α)) (position : Nat) : Prop :=
  ∃ span ∈ spans, span.1 ≤ position ∧ position < span.2.1

theorem Ordered.meet {size : Nat} {spans : List (Nat × Nat × α)} (ordered : Ordered size spans)
    {one two : Nat × Nat × α} (first : one ∈ spans) (second : two ∈ spans) {position : Nat}
    (inOne : one.1 ≤ position ∧ position < one.2.1) (inTwo : two.1 ≤ position ∧ position < two.2.1) :
    one = two := by
  have apart : spans.Pairwise fun one two => one.2.1 ≤ two.1 ∨ two.2.1 ≤ one.1 :=
    ordered.apart.imp .inl
  have symmetric : Std.Symm fun one two : Nat × Nat × α => one.2.1 ≤ two.1 ∨ two.2.1 ≤ one.1 :=
    ⟨fun _ _ => Or.symm⟩
  by_contra other
  have either := apart.forall first second other
  omega

theorem slice_append (front middle behind : Text) :
    slice (front ++ (middle ++ behind)) front.length (front.length + middle.length) = middle := by
  simp [slice]

theorem respan_cons {position : Nat} {spans : List (Nat × Nat × Text)}
    (later : ∀ span ∈ spans, position < span.1 ∧ span.1 ≤ span.2.1) (c : Char) (text : Text) :
    respan position (c :: text) spans = c :: respan (position + 1) text spans := by
  cases spans with
  | nil => rfl
  | cons span spans =>
    obtain ⟨start,stop,new⟩ := span
    obtain ⟨ahead,forward⟩ := later _ List.mem_cons_self
    dsimp only at ahead forward
    have first : start - position = (start - (position + 1)) + 1 := by omega
    have last : stop - position = (stop - (position + 1)) + 1 := by omega
    rw [respan,respan,first,last,List.take_succ_cons,List.drop_succ_cons,List.cons_append,
      List.cons_append]

end Plainmark.Text

namespace Plainmark.Pattern
open Text
variable (pattern : Pattern α)

def spansBehind (position : Nat) (text : Text) : List (Nat × Nat × α) :=
  Piece.spansFrom pattern position (pattern.scan text)

theorem spansBehind_found {position : Nat} {text rest : Text} {occurrence : α}
    (read : pattern.read? text = some (occurrence,rest)) :
    pattern.spansBehind position text =
      (position,position + (pattern.source occurrence).length,occurrence) ::
        pattern.spansBehind (position + (pattern.source occurrence).length) rest := by
  rw [spansBehind,pattern.scan_found read]
  rfl

theorem spansBehind_kept {position : Nat} {c : Char} {text : Text}
    (read : pattern.read? (c :: text) = none) :
    pattern.spansBehind position (c :: text) = pattern.spansBehind (position + 1) text := by
  rw [spansBehind,pattern.scan_kept read]
  rfl

theorem spansBehind_read {position : Nat} {text : Text} {span : Nat × Nat × α}
    (met : span ∈ pattern.spansBehind position text) : ∃ front ending rest,
      text = front ++ ending ∧ span.1 = position + front.length ∧
      pattern.read? ending = some (span.2.2,rest) ∧
      span.2.1 = span.1 + (pattern.source span.2.2).length := by
  induction text using pattern.scan_induction generalizing position with
  | empty => simp [spansBehind,Piece.spansFrom] at met
  | found text occurrence rest read ih =>
    rw [pattern.spansBehind_found read] at met
    rcases List.mem_cons.mp met with rfl | later
    · exact ⟨[],text,rest,rfl,rfl,read,rfl⟩
    · obtain ⟨front,ending,behind,rfl,start,found,stop⟩ := ih later
      refine ⟨pattern.source occurrence ++ front,ending,behind,?_,?_,found,stop⟩
      · rw [pattern.canonical read,List.append_assoc]
      · rw [start,List.length_append,Nat.add_assoc]
  | kept c text read ih =>
    rw [pattern.spansBehind_kept read] at met
    obtain ⟨front,ending,behind,rfl,start,found,stop⟩ := ih met
    refine ⟨c :: front,ending,behind,rfl,?_,found,stop⟩
    rw [start,List.length_cons]
    omega

theorem spansBehind_start {position : Nat} {text : Text} {span : Nat × Nat × α}
    (met : span ∈ pattern.spansBehind position text) : position ≤ span.1 ∧ span.1 < span.2.1 := by
  obtain ⟨front,ending,rest,_,start,read,stop⟩ := pattern.spansBehind_read met
  have visible := List.length_pos_iff.mpr (pattern.visible read)
  omega

theorem spansBehind_apart (position : Nat) (text : Text) :
    (pattern.spansBehind position text).Pairwise fun one next => one.2.1 ≤ next.1 := by
  induction text using pattern.scan_induction generalizing position with
  | empty => simp [spansBehind,Piece.spansFrom]
  | found text occurrence rest read ih =>
    rw [pattern.spansBehind_found read]
    exact .cons (fun span met => (pattern.spansBehind_start met).1) (ih _)
  | kept c text read ih =>
    rw [pattern.spansBehind_kept read]
    exact ih _

theorem spansBehind_covers (position : Nat) (front : Text) {ending : Text} {found : α × Text}
    (readable : pattern.read? ending = some found) :
    Covered (pattern.spansBehind position (front ++ ending)) (position + front.length) := by
  generalize whole : front ++ ending = text
  induction text using pattern.scan_induction generalizing position front with
  | empty =>
    rw [(List.append_eq_nil_iff.mp whole).2,pattern.read?_nil] at readable
    cases readable
  | found text occurrence rest read ih =>
    rw [pattern.spansBehind_found read]
    by_cases inside : front.length < (pattern.source occurrence).length
    · exact ⟨_,List.mem_cons_self,Nat.le_add_right _ _,Nat.add_lt_add_left inside _⟩
    · rw [pattern.canonical read] at whole
      have passed := Nat.le_of_not_lt inside
      obtain ⟨inner,rfl⟩ := List.prefix_of_prefix_length_le ⟨rest,rfl⟩ ⟨ending,whole⟩ passed
      rw [List.append_assoc] at whole
      obtain ⟨span,member,covers⟩ := ih (position + (pattern.source occurrence).length) inner
        (List.append_cancel_left whole)
      refine ⟨span,List.mem_cons_of_mem _ member,?_⟩
      rwa [List.length_append,← Nat.add_assoc]
  | kept c text read ih =>
    rw [pattern.spansBehind_kept read]
    cases front with
    | nil =>
      rw [List.nil_append] at whole
      rw [whole,read] at readable
      cases readable
    | cons d front =>
      obtain ⟨rfl,behind⟩ := List.cons.inj whole
      rw [List.length_cons,Nat.add_comm front.length,← Nat.add_assoc]
      exact ih _ front behind

theorem spans_ordered (text : Text) : Ordered text.length (pattern.spans text) := by
  refine ⟨fun span met => ?_,pattern.spansBehind_apart 0 text⟩
  refine ⟨(pattern.spansBehind_start met).2,?_⟩
  obtain ⟨front,ending,rest,rfl,start,read,stop⟩ := pattern.spansBehind_read met
  rw [pattern.canonical read,List.length_append,List.length_append]
  omega

theorem spans_read {text : Text} {span : Nat × Nat × α} (met : span ∈ pattern.spans text) :
    slice text span.1 span.2.1 = pattern.source span.2.2 ∧
      pattern.read? (text.drop span.1) = some (span.2.2,text.drop span.2.1) := by
  obtain ⟨front,ending,rest,rfl,start,read,stop⟩ := pattern.spansBehind_read met
  rw [Nat.zero_add] at start
  have shape := pattern.canonical read
  rw [stop,start]
  refine ⟨by rw [shape,slice_append],?_⟩
  rw [List.drop_left,read,← List.drop_drop,List.drop_left,shape,List.drop_left]

theorem spans_cover {text : Text} {position : Nat} {found : α × Text}
    (readable : pattern.read? (text.drop position) = some found) :
    Covered (pattern.spans text) position := by
  by_cases inside : position ≤ text.length
  · have covers := pattern.spansBehind_covers 0 (text.take position) readable
    rwa [List.take_append_drop,List.length_take_of_le inside,Nat.zero_add] at covers
  · rw [List.drop_eq_nil_of_le (by omega),pattern.read?_nil] at readable
    cases readable

end Plainmark.Pattern

namespace Plainmark.Substitution
open Text
variable {pattern : Pattern α} {render : α → Logged}

theorem replaceAll_respan (position : Nat) (text : Text) : replaceAll pattern render text =
    respan position text ((pattern.spansBehind position text).map fun span =>
      (span.1,span.2.1,(render span.2.2).text)) := by
  induction text using pattern.scan_induction generalizing position with
  | empty => simp [Pattern.spansBehind,Piece.spansFrom,respan]
  | found text occurrence rest read ih =>
    rw [replaceAll_found read,pattern.spansBehind_found read,List.map_cons,respan,Nat.sub_self,
      List.take_zero,List.nil_append,Nat.add_sub_cancel_left,pattern.canonical read,
      List.drop_left,← ih]
  | kept c text read ih =>
    rw [replaceAll_kept read,pattern.spansBehind_kept read,respan_cons,← ih]
    intro span member
    obtain ⟨other,met,rfl⟩ := List.mem_map.mp member
    obtain ⟨start,stop⟩ := pattern.spansBehind_start met
    exact ⟨start,Nat.le_of_lt stop⟩

theorem apply_text (what text : Text) : (apply pattern render what text).text =
    respan 0 text ((pattern.spans text).map fun span => (span.1,span.2.1,(render span.2.2).text)) :=
  replaceAll_respan 0 text

theorem records_spansFrom (pattern : Pattern α) (position : Nat) (pieces : List (Piece α)) :
    pieces.flatMap (pieceRecords render) =
      (Piece.spansFrom pattern position pieces).flatMap fun span => (render span.2.2).records := by
  induction pieces generalizing position with
  | nil => rfl
  | cons piece pieces ih =>
    cases piece with
    | kept c => exact ih _
    | found occurrence => rw [List.flatMap_cons,ih,Piece.spansFrom,List.flatMap_cons]; rfl

theorem countP_spansFrom (pattern : Pattern α) (position : Nat) (pieces : List (Piece α)) :
    pieces.countP isFound = (Piece.spansFrom pattern position pieces).length := by
  induction pieces generalizing position with
  | nil => rfl
  | cons piece pieces ih =>
    cases piece with
    | kept c => rw [List.countP_cons_of_neg (by simp [isFound]),ih]; rfl
    | found occurrence =>
      rw [List.countP_cons_of_pos rfl,ih (position + (pattern.source occurrence).length)]
      rfl

theorem apply_records (what text : Text) : (apply pattern render what text).records =
    ((pattern.spans text).flatMap fun span => (render span.2.2).records) ++
      [summary what (pattern.spans text).length] := by
  rw [apply,records_spansFrom pattern 0,countP_spansFrom pattern 0]
  rfl

end Plainmark.Substitution

namespace Plainmark.Macro
open Text Substitution

end Plainmark.Macro

namespace Plainmark.Scaffold
open Text Substitution

theorem read?_source {call : Call} (fits : call.Fits) (behind : Text) :
    ∃ found, pattern.read? (call.source ++ behind) = some (found,afterTail behind) := by
  refine ⟨_,Option.map_eq_some_iff.mpr ⟨afterTail behind,?_,rfl⟩⟩
  exact rest?_eq_some_iff.mpr ⟨call,behind,fits,rfl,rfl⟩

end Plainmark.Scaffold
