import Mathlib.Data.List.Basic
import Plainmark.Proofs.Patches

namespace Plainmark.Line
open Text

-- Whether a text ends with a break, and whether it has a last line without one. An
-- empty text has no last line.
def ended (text : Text) : Bool := text.getLast?.any isBreak

def unended (text : Text) : Bool := text.getLast?.any (!isBreak ·)

def Single (text : Text) : Prop := ∃ line, split text = [line]

def Parted (texts : List Text) : Prop := texts.Pairwise fun text _ => ended text = true

def StartsBehind (text front : Text) : Prop :=
  ∃ before after, split text = before ++ after ∧ before.flatMap full = front

def EachBegins (texts : List Text) : Prop :=
  ∀ front text back, texts = front ++ text :: back → StartsBehind texts.flatten front.flatten

def Begun (text : Text) : Prop := ∃ c rest, text = c :: rest ∧ c ≠ '\n'

variable {c : Char} {text one two : Text}

theorem split_cons (c : Char) (text : Text) : split (c :: text) = prepend c (split text) := rfl

theorem split_ne_nil (filled : text ≠ []) : split text ≠ [] := by
  intro none
  apply filled
  rw [← flatMap_split text,none]
  rfl

theorem ended_append (filled : two ≠ []) : ended (one ++ two) = ended two := by
  rw [ended,List.getLast?_append_of_ne_nil _ filled,ended]

theorem ended_cons (inner : isBreak c = false) (text : Text) : ended (c :: text) = ended text := by
  cases text with
  | nil => exact inner
  | cons d text => exact @ended_append [c] _ (List.cons_ne_nil d text)

theorem ended_eq_not_unended (filled : text ≠ []) : ended text = !unended text := by
  rw [ended,unended,List.getLast?_eq_some_getLast filled,Option.any_some,Option.any_some,
    Bool.not_not]

theorem prepend_break (broken : isBreak c = true) (lines : List Line) :
    (∃ rest, c = '\r' ∧ lines = ⟨[],['\n']⟩ :: rest ∧
        prepend c lines = ⟨[],['\r','\n']⟩ :: rest) ∨
      (¬(c = '\r' ∧ ∃ rest, lines = ⟨[],['\n']⟩ :: rest) ∧
        prepend c lines = ⟨[],[c]⟩ :: lines) := by
  unfold prepend
  rw [if_pos broken]
  split
  · exact .inl ⟨_,rfl,rfl,rfl⟩
  · rename_i other
    refine .inr ⟨fun joined => ?_,rfl⟩
    obtain ⟨rfl,rest,rfl⟩ := joined
    exact other rest rfl rfl

theorem prepend_inner (inner : isBreak c = false) (line : Line) (rest : List Line) :
    prepend c (line :: rest) = ⟨c :: line.body,line.ending⟩ :: rest := by
  unfold prepend
  rw [if_neg (by simp [inner])]

theorem prepend_inner_nil (inner : isBreak c = false) : prepend c [] = [⟨[c],[]⟩] := by
  unfold prepend
  rw [if_neg (by simp [inner])]

theorem prepend_append {lines : List Line} (filled : lines ≠ []) (rest : List Line) :
    prepend c (lines ++ rest) = prepend c lines ++ rest := by
  obtain ⟨line,lines,rfl⟩ := List.exists_cons_of_ne_nil filled
  cases broken : isBreak c with
  | false => rw [List.cons_append,prepend_inner broken,prepend_inner broken,List.cons_append]
  | true =>
    rcases prepend_break broken (line :: lines) with ⟨more,rfl,shape,joined⟩ | ⟨apart,put⟩
    · obtain ⟨rfl,rfl⟩ := List.cons.inj shape
      rw [joined]
      rfl
    · rw [put]
      rcases prepend_break broken (line :: lines ++ rest) with ⟨more,same,shape,_⟩ | ⟨_,put⟩
      · obtain ⟨rfl,_⟩ := List.cons.inj shape
        exact absurd ⟨same,_,rfl⟩ apart
      · rw [put]
        rfl

-- Behind a break a new line begins, unless a line feed joins a carriage return.
theorem split_append (broken : ended one = true) (apart : two.head? ≠ some '\n') :
    split (one ++ two) = split one ++ split two := by
  induction one with
  | nil => cases broken
  | cons c one ih =>
    by_cases last : one = []
    · subst last
      have here : isBreak c = true := broken
      rw [List.singleton_append,split_cons,split_cons]
      rcases prepend_break here (split two) with ⟨rest,_,shape,_⟩ | ⟨_,put⟩
      · have begins : two = '\n' :: rest.flatMap full := by
          rw [← flatMap_split two,shape]
          rfl
        rw [begins] at apart
        exact absurd rfl apart
      · rw [put]
        rcases prepend_break here [] with ⟨_,_,none,_⟩ | ⟨_,alone⟩
        · cases none
        · exact congrArg (· ++ split two) alone.symm
    · have rest : ended one = true := (@ended_append [c] one last).symm.trans broken
      rw [List.cons_append,split_cons,ih rest,prepend_append (split_ne_nil last),split_cons]

theorem split_full (text : Text) : ∀ line ∈ split text, split line.full = [line] := by
  induction text with
  | nil => exact fun _ member => absurd member List.not_mem_nil
  | cons c text ih =>
    rw [split_cons]
    cases broken : isBreak c with
    | true =>
      rcases prepend_break broken (split text) with ⟨rest,rfl,shape,joined⟩ | ⟨_,put⟩
      · rw [joined]
        intro line member
        rcases List.mem_cons.mp member with rfl | later
        · rfl
        · exact ih line (by rw [shape]; exact List.mem_cons_of_mem _ later)
      · rw [put]
        intro line member
        rcases List.mem_cons.mp member with rfl | later
        · rcases prepend_break broken [] with ⟨_,_,none,_⟩ | ⟨_,alone⟩
          · cases none
          · exact alone
        · exact ih line later
    | false =>
      cases lines : split text with
      | nil =>
        rw [prepend_inner_nil broken]
        intro line member
        rw [List.mem_singleton.mp member]
        exact prepend_inner_nil broken
      | cons first rest =>
        rw [lines] at ih
        rw [prepend_inner broken]
        intro line member
        rcases List.mem_cons.mp member with rfl | later
        · have alone := ih first List.mem_cons_self
          change split (c :: first.full) = _
          rw [split_cons,alone,prepend_inner broken]
        · exact ih line (List.mem_cons_of_mem _ later)

theorem split_ended (text : Text) :
    (split text).Pairwise fun line _ => ended line.full = true := by
  induction text with
  | nil => exact .nil
  | cons c text ih =>
    rw [split_cons]
    cases broken : isBreak c with
    | true =>
      rcases prepend_break broken (split text) with ⟨rest,rfl,shape,joined⟩ | ⟨_,put⟩
      · rw [joined]
        rw [shape] at ih
        exact .cons (fun _ _ => rfl) ih.of_cons
      · rw [put]
        exact .cons (fun _ _ => broken) ih
    | false =>
      cases lines : split text with
      | nil =>
        rw [prepend_inner_nil broken]
        exact List.pairwise_singleton _ _
      | cons first rest =>
        rw [lines] at ih
        rw [prepend_inner broken]
        refine .cons (fun line member => ?_) ih.of_cons
        exact (ended_cons broken first.full).trans (List.rel_of_pairwise_cons ih member)

theorem parted_lines (text : Text) : Parted (Patch.lines text) :=
  List.pairwise_map.mpr (split_ended text)

theorem lines_filled {line : Text} (member : line ∈ Patch.lines text) : line ≠ [] := by
  obtain ⟨whole,listed,rfl⟩ := List.mem_map.mp member
  intro none
  have alone := split_full text whole listed
  rw [none] at alone
  cases alone

theorem ended_last {front : List Text} {last : Text} (shape : Patch.lines text = front ++ [last]) :
    ended last = ended text := by
  have listed : last ∈ Patch.lines text := by
    rw [shape]
    exact List.mem_append_right _ (List.mem_singleton_self last)
  rw [← Patch.flatten_lines text,shape,List.flatten_append,List.flatten_singleton,
    ended_append (lines_filled listed)]

theorem ended_lines (closed : unended text = false) : ∀ line ∈ Patch.lines text, ended line = true := by
  intro line member
  obtain ⟨front,back,shape⟩ := List.append_of_mem member
  have pairs := parted_lines text
  cases back with
  | nil =>
    have filled : text ≠ [] := by
      rintro rfl
      cases member
    rw [ended_last shape,ended_eq_not_unended filled,closed]
    rfl
  | cons next back =>
    rw [shape] at pairs
    exact List.rel_of_pairwise_cons (List.pairwise_append.mp pairs).2.1 List.mem_cons_self

theorem startsBehind_iff (other : c ≠ '\n') :
    StartsBehind (one ++ c :: two) one ↔ one = [] ∨ ended one = true := by
  constructor
  · rintro ⟨before,after,whole,front⟩
    rcases List.eq_nil_or_concat before with rfl | ⟨lines,line,rfl⟩
    · exact .inl front.symm
    · rw [List.concat_eq_append] at whole front
      right
      have more : after ≠ [] := by
        rintro rfl
        have all := flatMap_split (one ++ c :: two)
        rw [whole,List.append_nil,front] at all
        simp at all
      obtain ⟨next,after,rfl⟩ := List.exists_cons_of_ne_nil more
      have broken : ended line.full = true := by
        have pairs := split_ended (one ++ c :: two)
        rw [whole] at pairs
        exact (List.pairwise_append.mp pairs).2.2 line (by simp) next List.mem_cons_self
      have filled : line.full ≠ [] := by
        intro none
        rw [none] at broken
        cases broken
      rw [← front,List.flatMap_append,List.flatMap_singleton,ended_append filled]
      exact broken
  · rintro (rfl | broken)
    · exact ⟨[],split (c :: two),rfl,rfl⟩
    · refine ⟨split one,split (c :: two),split_append broken ?_,flatMap_split one⟩
      rw [List.head?_cons]
      exact fun same => other (Option.some.inj same)

theorem parted_iff {texts : List Text} : Parted texts ↔
    ∀ front text next back, texts = front ++ text :: next :: back → ended text = true := by
  constructor
  · rintro parted front text next back rfl
    exact List.rel_of_pairwise_cons (List.pairwise_append.mp parted).2.1 List.mem_cons_self
  · intro splits
    induction texts with
    | nil => exact .nil
    | cons text texts ih =>
      refine .cons (fun other member => ?_) (ih fun front inner next back shape =>
        splits (text :: front) inner next back (congrArg (text :: ·) shape))
      obtain ⟨next,back,rfl⟩ := List.exists_cons_of_ne_nil (List.ne_nil_of_mem member)
      exact splits [] text next back rfl

theorem eachBegins_iff {texts : List Text} (begun : ∀ text ∈ texts, Begun text) :
    EachBegins texts ↔ Parted texts := by
  have whole : ∀ front c rest back, (front ++ (c :: rest) :: back : List Text).flatten =
      front.flatten ++ c :: (rest ++ back.flatten) := by simp
  constructor
  · intro starts
    refine parted_iff.mpr fun front text next back shape => ?_
    obtain ⟨c,rest,rfl,other⟩ := begun next (by rw [shape]; simp)
    obtain ⟨d,inner,rfl,_⟩ := begun text (by rw [shape]; simp)
    have behind := starts (front ++ [d :: inner]) (c :: rest) back (by rw [shape]; simp)
    rw [shape,List.append_cons,whole,startsBehind_iff other] at behind
    rw [List.flatten_append,List.flatten_singleton,ended_append (List.cons_ne_nil _ _)] at behind
    exact behind.resolve_left (by simp)
  · intro parted front text back shape
    obtain ⟨c,rest,rfl,other⟩ := begun text (by rw [shape]; simp)
    rw [shape,whole,startsBehind_iff other]
    rcases List.eq_nil_or_concat front with rfl | ⟨front,last,rfl⟩
    · exact .inl rfl
    · rw [List.concat_eq_append] at shape ⊢
      have broken := parted_iff.mp parted front last (c :: rest) back (by rw [shape]; simp)
      obtain ⟨d,inner,rfl,_⟩ := begun last (by rw [shape]; simp)
      right
      rw [List.flatten_append,List.flatten_singleton,ended_append (List.cons_ne_nil _ _)]
      exact broken

theorem single_iff {text : Text} : Single text ↔ Patch.lines text = [text] := by
  constructor
  · rintro ⟨line,alone⟩
    have whole := flatMap_split text
    rw [alone,List.flatMap_singleton] at whole
    rw [Patch.lines,alone,List.map_singleton,whole]
  · intro alone
    obtain ⟨line,shape,_⟩ := List.map_eq_singleton_iff.mp alone
    exact ⟨line,shape⟩

theorem single_of_mem {line : Text} (member : line ∈ Patch.lines text) : Single line := by
  obtain ⟨whole,listed,rfl⟩ := List.mem_map.mp member
  exact ⟨whole,split_full text whole listed⟩

-- The lines of texts written one behind the other are the texts themselves exactly
-- when each of them is one line that begins on a new one.
theorem lines_flatten_iff {texts : List Text} (begun : ∀ text ∈ texts, Begun text) :
    Patch.lines texts.flatten = texts ↔ Parted texts ∧ ∀ text ∈ texts, Single text := by
  constructor
  · intro same
    have parted := parted_lines texts.flatten
    rw [same] at parted
    refine ⟨parted,fun text member => ?_⟩
    rw [← same] at member
    exact single_of_mem member
  · rintro ⟨parted,single⟩
    induction texts with
    | nil => rfl
    | cons text texts ih =>
      have alone := single_iff.mp (single text List.mem_cons_self)
      have rest := ih (fun other member => begun other (List.mem_cons_of_mem _ member))
        parted.of_cons fun other member => single other (List.mem_cons_of_mem _ member)
      rw [List.flatten_cons]
      cases texts with
      | nil => rw [List.flatten_nil,List.append_nil,alone]
      | cons next texts =>
        have broken := List.rel_of_pairwise_cons parted List.mem_cons_self
        obtain ⟨c,inner,rfl,other⟩ := begun next (by simp)
        have apart : ((c :: inner) :: texts).flatten.head? ≠ some '\n' := by
          simpa using other
        rw [Patch.lines] at alone rest ⊢
        rw [split_append broken apart,List.map_append,alone,rest,List.singleton_append]

theorem single_behind {front : Text} (inner : ∀ c ∈ front, isBreak c = false) (filled : text ≠ []) :
    Single (front ++ text) ↔ Single text := by
  induction front with
  | nil => rfl
  | cons c front ih =>
    obtain ⟨line,rest,shape⟩ := List.exists_cons_of_ne_nil
      (split_ne_nil (List.append_ne_nil_of_right_ne_nil front filled))
    rw [← ih fun other member => inner other (List.mem_cons_of_mem _ member),Single,Single,
      List.cons_append,split_cons,shape,prepend_inner (inner c List.mem_cons_self)]
    simp

end Plainmark.Line
