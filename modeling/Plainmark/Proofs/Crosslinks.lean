import Plainmark.Proofs.Insertions

namespace Plainmark.Link
open Text Substitution

def bracket (depth : Nat) (c : Char) : Option Nat :=
  if c = '[' then some (depth + 1)
  else if c = ']' then if depth = 0 then none else some (depth - 1)
  else some depth

def openBrackets (depth : Nat) (text : Text) : Option Nat := text.foldlM bracket depth

-- A link as a reader of Markdown takes it: the brackets in its label match, and
-- its target begins in a certain way and goes on.
structure Rooted (label ending : Text) : Prop where
  named : label ≠ []
  balanced : openBrackets 0 label = some 0
  filled : ending ≠ []
  closed : ')' ∉ ending

def HoldsRooted (start text : Text) : Prop := ∃ front label ending behind,
  Rooted label ending ∧ text = front ++ (source ⟨label,start ++ ending⟩ ++ behind)

def targetAt? (link : Link) : Option Nat := some (link.label.length + 3)

def targets (start text : Text) : List Nat := (pattern start).placesBehind targetAt? 0 text

def InTarget (start text : Text) (position : Nat) : Prop := ∃ span ∈ (pattern start).spans text,
  span.1 + (span.2.2.label.length + 3) ≤ position ∧ position < span.2.1

-- A link that is met at its own target: no bracket stands in its label, and it
-- begins outside the targets of the others.
def Reached (start text front label : Text) : Prop :=
  '[' ∉ label ∧ ']' ∉ label ∧ ¬ InTarget start text front.length

theorem openBrackets_append (depth : Nat) (one two : Text) :
    openBrackets depth (one ++ two) =
      (openBrackets depth one).bind fun inner => openBrackets inner two :=
  List.foldlM_append

theorem openBrackets_cons (depth : Nat) (c : Char) (text : Text) :
    openBrackets depth (c :: text) = (bracket depth c).bind fun inner => openBrackets inner text :=
  List.foldlM_cons

theorem openBrackets_unclosed (depth : Nat) {text : Text} (unclosed : ']' ∉ text) :
    ∃ more, openBrackets depth text = some (depth + more) := by
  induction text generalizing depth with
  | nil => exact ⟨0,rfl⟩
  | cons c text ih =>
    rw [List.mem_cons,not_or] at unclosed
    rw [openBrackets_cons,bracket,if_neg (Ne.symm unclosed.1)]
    split
    · obtain ⟨more,count⟩ := ih (depth + 1) unclosed.2
      exact ⟨1 + more,by rw [Option.bind_some,count,Nat.add_assoc]⟩
    · exact ih depth unclosed.2

theorem openBrackets_plain (depth : Nat) {text : Text} (opening : '[' ∉ text)
    (closing : ']' ∉ text) : openBrackets depth text = some depth := by
  induction text with
  | nil => rfl
  | cons c text ih =>
    rw [List.mem_cons,not_or] at opening closing
    rw [openBrackets_cons,bracket,if_neg (Ne.symm opening.1),if_neg (Ne.symm closing.1)]
    exact ih opening.2 closing.2

theorem balanced_closed {front behind : Text}
    (balanced : openBrackets 0 (front ++ '[' :: behind) = some 0) : ']' ∈ behind := by
  by_contra unclosed
  rw [openBrackets_append] at balanced
  obtain ⟨depth,_,rest⟩ := Option.bind_eq_some_iff.mp balanced
  rw [openBrackets_cons,bracket,if_pos rfl,Option.bind_some] at rest
  obtain ⟨more,count⟩ := openBrackets_unclosed (depth + 1) unclosed
  rw [count,Option.some.injEq] at rest
  omega

theorem unbracketed_of_balanced {label : Text} (balanced : openBrackets 0 label = some 0)
    (unclosed : ']' ∉ label) : '[' ∉ label := by
  intro opened
  obtain ⟨front,behind,rfl⟩ := List.append_of_mem opened
  refine unclosed (List.mem_append_right _ (List.mem_cons_of_mem _ ?_))
  exact balanced_closed balanced

theorem openBrackets_insertAt {places : List Nat} {added : Text} (opening : '[' ∉ added)
    (closing : ']' ∉ added) (depth position : Nat) (text : Text) :
    openBrackets depth (insertAt places added position text) = openBrackets depth text := by
  induction text generalizing depth position with
  | nil => rfl
  | cons c text ih =>
    have front : openBrackets depth (if position ∈ places then added else []) = some depth := by
      split
      · exact openBrackets_plain depth opening closing
      · rfl
    rw [insertAt,openBrackets_append,front,Option.bind_some,openBrackets_cons,openBrackets_cons]
    exact congrArg _ (funext fun inner => ih inner _)

theorem withDomain_inserts (settings : Settings) (start : Text) :
    Inserts (pattern start) (Stage.withDomain settings) targetAt?
      (stripSlashesRight settings.domain) := by
  refine ⟨fun link unplaced => ?_,fun link inner placed => ?_⟩
  · cases unplaced
  cases placed
  refine ⟨'[' :: link.label ++ [']','('],link.target ++ [')'],by simp,?_,by simp,?_⟩
  · simp [pattern,source]
  · simp [Stage.withDomain,source]

theorem span_shape {start text : Text} {span : Nat × Nat × Link}
    (met : span ∈ (pattern start).spans text) : ∃ front label ending behind,
      text = front ++ (source ⟨label,start ++ ending⟩ ++ behind) ∧ span.1 = front.length ∧
      span.2.2 = ⟨label,start ++ ending⟩ ∧ ']' ∉ label ∧ ')' ∉ ending ∧
      span.2.1 = front.length + (source ⟨label,start ++ ending⟩).length := by
  obtain ⟨front,whole,behind,rfl,first,read,last⟩ := (pattern start).spansBehind_read met
  obtain ⟨rfl,_,unclosed,ending,target,_,closed⟩ := read?_eq_some_iff.mp read
  rw [Nat.zero_add] at first
  have link : span.2.2 = ⟨span.2.2.label,start ++ ending⟩ := by rw [← target]
  refine ⟨front,span.2.2.label,ending,behind,by rw [← link],first,link,unclosed,closed,?_⟩
  rw [last,first,← link]
  rfl

theorem target_within {start text : Text} {span : Nat × Nat × Link}
    (met : span ∈ (pattern start).spans text) :
    span.1 + (span.2.2.label.length + 3) < span.2.1 := by
  obtain ⟨front,label,ending,behind,_,first,link,_,_,last⟩ := span_shape met
  rw [last,first,link]
  simp [source]
  omega

theorem mem_targets {start text : Text} {place : Nat} : place ∈ targets start text ↔
    ∃ span ∈ (pattern start).spans text, place = span.1 + (span.2.2.label.length + 3) := by
  rw [targets,Pattern.mem_placesBehind]
  simp only [targetAt?,Option.some.injEq,exists_eq_left']
  rfl

structure Completes (start added : Text) : Prop where
  slash : start.head? = some '/'
  unopened : '(' ∉ start
  opening : '[' ∉ added
  closing : ']' ∉ added
  closed : ')' ∉ added
  filled : added ≠ []
  apart : ∀ c ∈ '(' :: start, added.head? ≠ some c

theorem source_append (label start ending behind : Text) :
    source ⟨label,start ++ ending⟩ ++ behind =
      '[' :: (label ++ ']' :: '(' :: (start ++ (ending ++ ')' :: behind))) := by
  simp [source]

theorem targets_opened {start text : Text} {place : Nat} (member : place ∈ targets start text) :
    Opened text place := by
  obtain ⟨span,met,rfl⟩ := mem_targets.mp member
  obtain ⟨front,label,ending,behind,shape,first,link,_⟩ := span_shape met
  refine ⟨front ++ '[' :: label,start ++ (ending ++ ')' :: behind),?_,?_⟩
  · rw [shape,source_append]
    simp
  · rw [first,link,List.length_append,List.length_cons]
    simp only [Nat.add_assoc]

section
variable {start added : Text} (completes : Completes start added)
include completes

theorem unplaced {text front behind : Text} {c : Char} {position : Nat} (other : c ≠ '/')
    (shape : text = front ++ c :: behind) (here : position = front.length) :
    position ∉ targets start text := by
  intro member
  obtain ⟨span,met,place⟩ := mem_targets.mp member
  obtain ⟨ahead,label,ending,after,whole,first,link,_⟩ := span_shape met
  obtain ⟨rest,begun⟩ := List.head?_eq_some_iff.mp completes.slash
  rw [shape,source_append,begun] at whole
  have split : front ++ c :: behind = (ahead ++ '[' :: (label ++ [']','('])) ++
      '/' :: (rest ++ (ending ++ ')' :: after)) := by
    rw [whole]
    simp
  have level : front.length = (ahead ++ '[' :: (label ++ [']','('])).length := by
    rw [← here,place,first,link]
    simp
  exact other (List.cons.inj (List.append_inj split level).2).1

theorem insertAt_start {text front behind : Text} {position : Nat}
    (shape : text = front ++ (start ++ behind)) (here : position = front.length) :
    insertAt (targets start text) added position start =
      (if position ∈ targets start text then added else []) ++ start := by
  have filled : start ≠ [] := by
    rintro rfl
    cases completes.slash
  rw [here]
  exact insertAt_unopened filled completes.unopened fun place member =>
    shape ▸ targets_opened member

section
variable {text front label ending behind : Text}
  (shape : text = front ++ (source ⟨label,start ++ ending⟩ ++ behind))
include shape

theorem marks_unplaced : front.length ∉ targets start text ∧
    front.length + 1 + label.length ∉ targets start text ∧
    front.length + 1 + label.length + 1 ∉ targets start text ∧
    front.length + (label.length + 3) + start.length + ending.length ∉ targets start text := by
  rw [source_append] at shape
  have closing : text = (front ++ '[' :: label) ++
      ']' :: '(' :: (start ++ (ending ++ ')' :: behind)) := by simp [shape]
  have parenthesis : text = (front ++ '[' :: (label ++ [']'])) ++
      '(' :: (start ++ (ending ++ ')' :: behind)) := by simp [shape]
  have last : text = (front ++ '[' :: (label ++ ']' :: '(' :: (start ++ ending))) ++
      ')' :: behind := by simp [shape]
  refine ⟨unplaced completes (by decide) shape rfl,?_,?_,?_⟩
  · exact unplaced completes (by decide) closing (by simp; omega)
  · exact unplaced completes (by decide) parenthesis (by simp; omega)
  · exact unplaced completes (by decide) last (by simp; omega)

theorem insertAt_link :
    let places := targets start text
    let target := front.length + (label.length + 3)
    let tail := target + start.length
    insertAt places added 0 text = insertAt places added 0 front ++
      (source ⟨insertAt places added (front.length + 1) label,
        (if target ∈ places then added else []) ++ start ++ insertAt places added tail ending⟩ ++
        insertAt places added (front ++ source ⟨label,start ++ ending⟩).length behind) := by
  intro places target tail
  obtain ⟨opening,closing,parenthesis,last⟩ := marks_unplaced completes shape
  have address : text = (front ++ '[' :: (label ++ [']','('])) ++
      (start ++ (ending ++ ')' :: behind)) := by simp [shape,source]
  have begun : insertAt places added target start =
      (if target ∈ places then added else []) ++ start :=
    insertAt_start completes address (by simp [target])
  have stop : (front ++ source ⟨label,start ++ ending⟩).length = tail + ending.length + 1 := by
    simp [source,tail,target]
    omega
  have here : front.length + 1 + label.length + 1 + 1 = target := by omega
  have whole : insertAt places added 0 text = insertAt places added 0 (front ++ '[' :: (label ++
      ']' :: '(' :: (start ++ (ending ++ ')' :: behind)))) := by rw [shape,source_append]
  rw [stop,whole,insertAt_append,Nat.zero_add,insertAt_kept opening,insertAt_append,
    insertAt_kept closing,insertAt_kept parenthesis,here,insertAt_append,begun,insertAt_append,
    insertAt_kept last]
  simp [source,places,tail,target]

end

theorem rooted_insertAt {places : List Nat} {first second : Nat} {label ending : Text} :
    Rooted (insertAt places added first label) (insertAt places added second ending) ↔
      Rooted label ending := by
  have empty : ∀ position text, insertAt places added position text = [] ↔ text = [] := by
    intro position text
    refine ⟨fun none => ?_,fun none => by rw [none]; rfl⟩
    exact List.sublist_nil.mp (none ▸ insertAt_sublist position text)
  have closing : ')' ∈ insertAt places added second ending ↔ ')' ∈ ending := by
    refine ⟨fun member => (mem_insertAt member).resolve_right completes.closed,?_⟩
    exact fun member => (insertAt_sublist second ending).mem member
  have brackets : openBrackets 0 (insertAt places added first label) = openBrackets 0 label :=
    openBrackets_insertAt completes.opening completes.closing 0 first label
  constructor
  · rintro ⟨named,balanced,filled,closed⟩
    exact ⟨mt (empty _ _).mpr named,brackets ▸ balanced,mt (empty _ _).mpr filled,mt closing.mpr closed⟩
  · rintro ⟨named,balanced,filled,closed⟩
    exact ⟨mt (empty _ _).mp named,brackets.trans balanced,mt (empty _ _).mp filled,mt closing.mp closed⟩

theorem rooted_before {text front label ending behind : Text} (rooted : Rooted label ending)
    (shape : insertAt (targets start text) added 0 text =
      front ++ (source ⟨label,start ++ ending⟩ ++ behind)) :
    ∃ front label ending behind, Rooted label ending ∧
      text = front ++ (source ⟨label,start ++ ending⟩ ++ behind) ∧
      front.length + (label.length + 3) ∉ targets start text := by
  rw [source_append] at shape
  obtain ⟨front,rest,whole,_,inside⟩ := insertAt_split completes.opening
    (fun ahead after same => unplaced completes (by decide) same (Nat.zero_add _)) shape
  obtain ⟨label,rest,rfl,rfl,further⟩ := insertAt_split completes.closing
    (fun ahead after same => by
      have there : text = (front ++ '[' :: ahead) ++ ']' :: after := by rw [whole,same]; simp
      exact unplaced completes (by decide) there (by simp; omega)) inside.symm
  obtain ⟨_,rest,rfl,target⟩ := insertAt_head completes.filled
    (completes.apart '(' List.mem_cons_self) further.symm
  obtain ⟨more,begun⟩ := List.head?_eq_some_iff.mp completes.slash
  have slash : start ++ (ending ++ ')' :: behind) = '/' :: (more ++ (ending ++ ')' :: behind)) := by
    rw [begun,List.cons_append]
  obtain ⟨outside,_⟩ := insertAt_head completes.filled (completes.apart '/' (by simp [begun]))
    (target.symm.trans slash)
  obtain ⟨rest,rfl,address⟩ := insertAt_block completes.filled
    (fun c member => completes.apart c (List.mem_cons_of_mem _ member)) target.symm
  obtain ⟨ending,behind,rfl,rfl,_⟩ := insertAt_split completes.closed
    (fun ahead after same => by
      have there : text = (front ++ '[' :: (label ++ ']' :: '(' :: (start ++ ahead))) ++
          ')' :: after := by rw [whole,same]; simp
      exact unplaced completes (by decide) there (by simp; omega)) address.symm
  have place : 0 + front.length + 1 + label.length + 1 + 1 = front.length + (label.length + 3) := by
    omega
  exact ⟨front,label,ending,behind,(rooted_insertAt completes).mp rooted,
    by rw [whole,source_append],place ▸ outside⟩

end

theorem unclosed_behind {ahead label front inner : Text}
    (same : ahead ++ '[' :: label = front ++ '[' :: inner) (begun : ahead.length ≤ front.length)
    (unclosed : ']' ∉ label) : ']' ∉ inner := by
  intro closing
  rcases mark_cases ahead same with ⟨outer,within,_⟩ | ⟨outer,_,nested⟩
  · rw [within,List.length_append,List.length_cons] at begun
    omega
  · have bracket : ']' ∈ '[' :: label := by
      rw [nested]
      simp [closing]
    simp [unclosed] at bracket

theorem target_shared {start text front label ending behind : Text} {span : Nat × Nat × Link}
    (shape : text = front ++ (source ⟨label,start ++ ending⟩ ++ behind)) (unclosed : ']' ∉ label)
    (met : span ∈ (pattern start).spans text) (first : span.1 ≤ front.length)
    (near : front.length < span.1 + (span.2.2.label.length + 3)) :
    front.length + (label.length + 3) = span.1 + (span.2.2.label.length + 3) := by
  obtain ⟨ahead,other,given,after,whole,begun,link,closed,_⟩ := span_shape met
  rw [link,begun] at near ⊢
  rw [begun] at first
  rw [shape] at whole
  have split : (ahead ++ '[' :: other) ++ ([']','('] ++ (start ++ (given ++ ')' :: after))) =
      front ++ '[' :: (label ++ ']' :: '(' :: (start ++ (ending ++ ')' :: behind))) := by
    simpa [source] using whole.symm
  rcases mark_cases _ split with ⟨inner,within,rest⟩ | ⟨inner,rfl,rest⟩
  · obtain ⟨rfl,_⟩ := mark_unique rest unclosed (unclosed_behind within first closed)
    have sizes := congrArg List.length within
    simp only [List.length_append,List.length_cons] at sizes ⊢
    omega
  · obtain ⟨more,rfl,_⟩ := mark_behind [']','('] rest (by decide)
    simp only [List.length_append,List.length_cons,List.length_nil] at near
    omega

section
variable {start text front label ending behind : Text} (rooted : Rooted label ending)
  (shape : text = front ++ (source ⟨label,start ++ ending⟩ ++ behind))
include rooted shape

theorem target_span (member : front.length + (label.length + 3) ∈ targets start text) :
    ']' ∉ label ∧ ∃ span ∈ (pattern start).spans text, span.1 ≤ front.length ∧
      span.1 + (span.2.2.label.length + 3) = front.length + (label.length + 3) ∧
      front.length + (label.length + 3) + start.length + ending.length < span.2.1 := by
  obtain ⟨span,met,place⟩ := mem_targets.mp member
  obtain ⟨ahead,other,given,after,whole,first,link,unclosed,closed,last⟩ := span_shape met
  rw [shape] at whole
  have split : (front ++ '[' :: label) ++ ([']','('] ++ (start ++ (ending ++ ')' :: behind))) =
      (ahead ++ '[' :: other) ++ ([']','('] ++ (start ++ (given ++ ')' :: after))) := by
    simpa [source] using whole
  have level : (front ++ '[' :: label).length = (ahead ++ '[' :: other).length := by
    rw [link,first] at place
    simp only [List.length_append,List.length_cons]
    simp only at place
    omega
  obtain ⟨labels,rest⟩ := List.append_inj split level
  have endings : ending = given :=
    (mark_unique (List.append_cancel_left (List.append_cancel_left rest)) rooted.closed closed).1
  have sizes := congrArg List.length labels
  simp only [List.length_append,List.length_cons] at sizes
  have begun : ahead.length ≤ front.length := by
    rcases mark_cases ahead labels.symm with ⟨inner,_,nested⟩ | ⟨inner,within,_⟩
    · exact absurd (balanced_closed (nested ▸ rooted.balanced)) unclosed
    · rw [within,List.length_append]
      omega
  refine ⟨unclosed_behind labels.symm begun unclosed,span,met,first ▸ begun,place.symm,?_⟩
  rw [last,endings]
  simp [source]
  omega

theorem target_alone (member : front.length + (label.length + 3) ∈ targets start text)
    {place : Nat} (other : place ∈ targets start text) : place ≤ front.length ∨
      place = front.length + (label.length + 3) ∨
      front.length + (label.length + 3) + start.length + ending.length < place := by
  obtain ⟨_,span,met,first,own,last⟩ := target_span rooted shape member
  obtain ⟨next,metNext,rfl⟩ := mem_targets.mp other
  by_contra! inside
  have same : span = next := ((pattern start).spans_ordered text).meet met metNext
    (by omega) ⟨Nat.le_add_right _ _,target_within metNext⟩
  subst same
  omega

theorem target_iff_reached : front.length + (label.length + 3) ∈ targets start text ↔
    Reached start text front label := by
  constructor
  · intro member
    obtain ⟨unclosed,span,met,first,own,last⟩ := target_span rooted shape member
    refine ⟨unbracketed_of_balanced rooted.balanced unclosed,unclosed,?_⟩
    rintro ⟨other,metOther,passed,before⟩
    have same : span = other := ((pattern start).spans_ordered text).meet met metOther
      ⟨first,by omega⟩ ⟨by omega,before⟩
    subst same
    omega
  · rintro ⟨_,unclosed,outside⟩
    have readable : read? start (text.drop front.length) =
        some (⟨label,start ++ ending⟩,behind) := by
      rw [shape,List.drop_left]
      exact read?_eq_some_iff.mpr ⟨rfl,rooted.named,unclosed,ending,rfl,rooted.filled,rooted.closed⟩
    obtain ⟨span,met,first,last⟩ := (pattern start).spans_cover readable
    have near : front.length < span.1 + (span.2.2.label.length + 3) := by
      by_contra! passed
      exact outside ⟨span,met,passed,last⟩
    exact mem_targets.mpr ⟨span,met,target_shared shape unclosed met first near⟩

end

theorem completes_standard :
    Completes ({} : Settings).docsPrefix (stripSlashesRight ({} : Settings).domain) := by
  constructor <;> decide

theorem insertAt_reached {start added text front label ending behind : Text}
    (completes : Completes start added) (rooted : Rooted label ending)
    (shape : text = front ++ (source ⟨label,start ++ ending⟩ ++ behind))
    (reached : Reached start text front label) :
    let put := insertAt (targets start text) added
    let tail := (front ++ source ⟨label,start ++ ending⟩).length
    put 0 text = put 0 front ++ (source ⟨label,added ++ (start ++ ending)⟩ ++ put tail behind) := by
  intro put tail
  have member := (target_iff_reached rooted shape).mpr reached
  have slash : 0 < start.length := by
    obtain ⟨rest,begun⟩ := List.head?_eq_some_iff.mp completes.slash
    rw [begun]
    exact Nat.succ_pos _
  have alone : ∀ place ∈ targets start text, _ := fun place =>
    target_alone rooted shape member
  have labelled : insertAt (targets start text) added (front.length + 1) label = label := by
    refine insertAt_clear fun place other => ?_
    have := alone place other
    omega
  have ended : insertAt (targets start text) added
      (front.length + (label.length + 3) + start.length) ending = ending := by
    refine insertAt_clear fun place other => ?_
    have := alone place other
    omega
  have whole := insertAt_link completes shape
  simp only [if_pos member] at whole
  rwa [labelled,ended,List.append_assoc added] at whole

theorem insertAt_unreached {start added text front label ending behind : Text}
    (completes : Completes start added) (rooted : Rooted label ending)
    (shape : text = front ++ (source ⟨label,start ++ ending⟩ ++ behind))
    (unreached : ¬ Reached start text front label) :
    let put := insertAt (targets start text) added
    let tail := (front ++ source ⟨label,start ++ ending⟩).length
    ∃ label ending, Rooted label ending ∧
      put 0 text = put 0 front ++ (source ⟨label,start ++ ending⟩ ++ put tail behind) := by
  intro put tail
  have outside := mt (target_iff_reached rooted shape).mp unreached
  have whole := insertAt_link completes shape
  simp only [if_neg outside,List.nil_append] at whole
  exact ⟨_,_,(rooted_insertAt completes).mpr rooted,whole⟩

-- What becomes of the links into the documentation. The domain goes in front of
-- the targets that are met and nowhere else. A link is met unless its label has
-- brackets or it begins inside the target of another one, and the links that
-- are not met are the ones that stay.
theorem rooted_links_completed_iff (path : Path) (shelf : Shelf) (text : Text) :
    let settings : Settings := {}
    let start := settings.docsPrefix
    let put := insertAt (targets start text) "https://developer.mozilla.org".toList
    let result := (Stage.docsLink.apply (.standard path shelf) text).text
    result = put 0 text ∧
    (∀ front label ending behind, Rooted label ending →
      text = front ++ (source ⟨label,start ++ ending⟩ ++ behind) →
      let tail := (front ++ source ⟨label,start ++ ending⟩).length
      (Reached start text front label →
        result = put 0 front ++ (source ⟨label,settings.docsUrl ++ ending⟩ ++ put tail behind)) ∧
      (¬ Reached start text front label → ∃ label ending, Rooted label ending ∧
        result = put 0 front ++ (source ⟨label,start ++ ending⟩ ++ put tail behind))) ∧
    (HoldsRooted start result ↔ ∃ front label ending behind, Rooted label ending ∧
      text = front ++ (source ⟨label,start ++ ending⟩ ++ behind) ∧
      ¬ Reached start text front label) := by
  intro settings start put result
  have inserted : result = put 0 text := replaceAll_insertAt (withDomain_inserts {} _) 0 text
  refine ⟨inserted,?_,?_⟩
  · intro front label ending behind rooted shape tail
    rw [inserted]
    refine ⟨fun reached => ?_,insertAt_unreached completes_standard rooted shape⟩
    have whole := insertAt_reached completes_standard rooted shape reached
    rwa [← List.append_assoc (stripSlashesRight settings.domain)] at whole
  · rw [inserted]
    constructor
    · rintro ⟨front,label,ending,behind,rooted,shape⟩
      obtain ⟨front,label,ending,behind,rooted,shape,outside⟩ :=
        rooted_before completes_standard rooted shape
      exact ⟨front,label,ending,behind,rooted,shape,
        mt (target_iff_reached rooted shape).mpr outside⟩
    · rintro ⟨front,label,ending,behind,rooted,shape,unreached⟩
      obtain ⟨label,ending,rooted,after⟩ :=
        insertAt_unreached completes_standard rooted shape unreached
      exact ⟨_,label,ending,_,rooted,after⟩

theorem around_image_and_inside_target_stay :
    let path : Path := ⟨.relative,["index.md".toList]⟩
    let apply := Stage.docsLink.apply (.standard path fun _ _ => false)
    let around := "[![a](b.png)](/en-US/docs/x)".toList
    let inside := (apply "[a](/en-US/docs/x[b](/en-US/docs/y)".toList).text
    (apply around).text = around ∧ HoldsRooted ({} : Settings).docsPrefix around ∧
      inside = "[a](https://developer.mozilla.org/en-US/docs/x[b](/en-US/docs/y)".toList ∧
      HoldsRooted ({} : Settings).docsPrefix inside := by
  intro path apply around inside
  have result : inside =
      "[a](https://developer.mozilla.org/en-US/docs/x[b](/en-US/docs/y)".toList := by decide +kernel
  refine ⟨by decide +kernel,?_,result,?_⟩
  · exact ⟨[],"![a](b.png)".toList,"x".toList,[],⟨by decide,by decide,by decide,by decide⟩,by decide +kernel⟩
  · rw [result]
    exact ⟨"[a](https://developer.mozilla.org/en-US/docs/x".toList,"b".toList,"y".toList,[],
      ⟨by decide,by decide,by decide,by decide⟩,by decide +kernel⟩

end Plainmark.Link
