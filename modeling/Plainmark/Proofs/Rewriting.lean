import Mathlib.Data.List.Basic
import Mathlib.Order.Lattice
import Plainmark.Conversion

namespace Plainmark.Pattern

theorem read?_nil (pattern : Pattern α) : pattern.read? [] = none := by
  cases read : pattern.read? [] with
  | none => rfl
  | some found =>
    obtain ⟨occurrence,rest⟩ := found
    have same := pattern.canonical read
    exact absurd (List.append_eq_nil_iff.mp same.symm).1 (pattern.visible read)

-- A scan meets a text piece by piece: either an occurrence stands at the front
-- and the scan goes on behind it, or one character is passed over.
theorem scan_induction (pattern : Pattern α) {motive : Text → Prop} (empty : motive [])
    (found : ∀ text occurrence rest, pattern.read? text = some (occurrence,rest) →
      motive rest → motive text)
    (kept : ∀ c text, pattern.read? (c :: text) = none → motive text → motive (c :: text))
    (text : Text) : motive text := by
  induction size : text.length using Nat.strongRecOn generalizing text with
  | ind n ih =>
    subst size
    cases text with
    | nil => exact empty
    | cons c text =>
      cases read : pattern.read? (c :: text) with
      | none => exact kept c text read (ih _ (Nat.lt_succ_self _) _ rfl)
      | some occurrence =>
        exact found _ _ _ read (ih _ (pattern.read?_shorter read) _ rfl)

theorem scan_empty_iff (pattern : Pattern α) (text : Text) :
    (∀ occurrence, .found occurrence ∉ pattern.scan text) ↔
      ∀ rest, rest <:+ text → pattern.read? rest = none := by
  induction text using pattern.scan_induction with
  | empty =>
    refine ⟨fun _ rest ending => ?_,fun _ occurrence => by simp⟩
    rw [List.suffix_nil.mp ending]
    exact pattern.read?_nil
  | found text occurrence rest read ih =>
    constructor
    · intro absent
      exact absurd (by rw [pattern.scan_found read]; exact List.mem_cons_self) (absent occurrence)
    · intro silent
      rw [silent text (List.suffix_refl _)] at read
      cases read
  | kept c text read ih =>
    rw [pattern.scan_kept read]
    constructor
    · intro absent rest ending
      rcases List.suffix_cons_iff.mp ending with rfl | inner
      · exact read
      · refine ih.mp (fun occurrence member => ?_) rest inner
        exact absent occurrence (List.mem_cons_of_mem _ member)
    · intro silent occurrence member
      rcases List.mem_cons.mp member with same | later
      · cases same
      · exact ih.mpr (fun rest inner => silent rest (inner.trans (List.suffix_cons _ _)))
          occurrence later

theorem read?_of_found (pattern : Pattern α) {text : Text} {occurrence : α}
    (met : .found occurrence ∈ pattern.scan text) :
    ∃ ending rest, ending <:+ text ∧ pattern.read? ending = some (occurrence,rest) := by
  induction text using pattern.scan_induction with
  | empty => simp at met
  | found text other rest read ih =>
    rw [pattern.scan_found read] at met
    rcases List.mem_cons.mp met with same | later
    · cases same
      exact ⟨text,rest,List.suffix_refl _,read⟩
    · obtain ⟨ending,behind,inner,found⟩ := ih later
      refine ⟨ending,behind,inner.trans ?_,found⟩
      exact ⟨_,(pattern.canonical read).symm⟩
  | kept c text read ih =>
    rw [pattern.scan_kept read] at met
    rcases List.mem_cons.mp met with same | later
    · cases same
    · obtain ⟨ending,behind,inner,found⟩ := ih later
      exact ⟨ending,behind,inner.trans (List.suffix_cons _ _),found⟩

theorem unread_iff {pattern : Pattern α} {Spelled : Text → Prop}
    (spells : ∀ text, pattern.read? text = none ↔
      ∀ part, Spelled part → ∀ behind, text ≠ part ++ behind) (text : Text) :
    (∀ ending, ending <:+ text → pattern.read? ending = none) ↔
      ∀ part, Spelled part → ¬ part <:+: text := by
  constructor
  · rintro unread part spelled ⟨front,behind,shape⟩
    refine (spells (part ++ behind)).mp (unread _ ⟨front,?_⟩) part spelled behind rfl
    rw [← shape,List.append_assoc]
  · rintro absent ending ⟨front,shape⟩
    refine (spells ending).mpr fun part spelled behind same => ?_
    refine absent part spelled ⟨front,behind,?_⟩
    rw [List.append_assoc,← same,shape]

end Plainmark.Pattern

namespace Plainmark.Substitution
variable {pattern : Pattern α} {render : α → Logged}

@[simp] theorem replaceAll_nil : replaceAll pattern render [] = [] := by
  simp [replaceAll]

theorem replaceAll_found {text rest : Text} {occurrence : α}
    (read : pattern.read? text = some (occurrence,rest)) :
    replaceAll pattern render text = (render occurrence).text ++ replaceAll pattern render rest := by
  rw [replaceAll,pattern.scan_found read,List.flatMap_cons]
  rfl

theorem replaceAll_kept {c : Char} {text : Text} (read : pattern.read? (c :: text) = none) :
    replaceAll pattern render (c :: text) = c :: replaceAll pattern render text := by
  rw [replaceAll,pattern.scan_kept read,List.flatMap_cons]
  rfl

def Changed (pattern : Pattern α) (render : α → Logged) (text : Text) : Prop :=
  ∃ occurrence, .found occurrence ∈ pattern.scan text ∧
    (render occurrence).text ≠ pattern.source occurrence

theorem changed_found {text rest : Text} {occurrence : α}
    (read : pattern.read? text = some (occurrence,rest)) : Changed pattern render text ↔
      (render occurrence).text ≠ pattern.source occurrence ∨ Changed pattern render rest := by
  simp [Changed,pattern.scan_found read]

theorem changed_kept {c : Char} {text : Text} (read : pattern.read? (c :: text) = none) :
    Changed pattern render (c :: text) ↔ Changed pattern render text := by
  simp [Changed,pattern.scan_kept read]

theorem replaceAll_unchanged {text : Text} (same : ¬ Changed pattern render text) :
    replaceAll pattern render text = text := by
  conv => rhs; rw [← pattern.scan_source text]
  refine List.flatMap_congr fun piece member => ?_
  cases piece with
  | kept c => rfl
  | found occurrence =>
    by_contra differs
    exact same ⟨occurrence,member,differs⟩

-- A rendering lightens when putting it for its occurrence, in any surroundings,
-- lowers a measure of the whole text.
def Lightens [LT β] (weight : Text → β) (pattern : Pattern α) (render : α → Logged) : Prop :=
  ∀ front text occurrence rest, pattern.read? text = some (occurrence,rest) →
    (render occurrence).text ≠ pattern.source occurrence →
    weight (front ++ ((render occurrence).text ++ rest)) < weight (front ++ text)

theorem replaceAll_lighter [Preorder β] {weight : Text → β}
    (lightens : Lightens weight pattern render) (front text : Text)
    (changed : Changed pattern render text) :
    weight (front ++ replaceAll pattern render text) < weight (front ++ text) := by
  induction text using pattern.scan_induction generalizing front with
  | empty =>
    obtain ⟨occurrence,member,_⟩ := changed
    simp at member
  | found text occurrence rest read ih =>
    rw [replaceAll_found read]
    have behind : Changed pattern render rest →
        weight (front ++ ((render occurrence).text ++ replaceAll pattern render rest)) <
          weight (front ++ ((render occurrence).text ++ rest)) := by
      intro later
      have step := ih (front ++ (render occurrence).text) later
      simpa only [List.append_assoc] using step
    by_cases same : (render occurrence).text = pattern.source occurrence
    · rw [same,pattern.canonical read]
      rw [same] at behind
      exact behind (((changed_found read).mp changed).resolve_left (not_not.mpr same))
    · have here := lightens front text occurrence rest read same
      by_cases later : Changed pattern render rest
      · exact lt_trans (behind later) here
      · rwa [replaceAll_unchanged later]
  | kept c text read ih =>
    rw [replaceAll_kept read]
    have step := ih (front ++ [c]) ((changed_kept read).mp changed)
    simpa only [List.append_assoc,List.singleton_append] using step

theorem replaceAll_eq_self_iff [Preorder β] {weight : Text → β}
    (lightens : Lightens weight pattern render) {text : Text} :
    replaceAll pattern render text = text ↔ ¬ Changed pattern render text := by
  refine ⟨fun same changed => ?_,replaceAll_unchanged⟩
  have lighter := replaceAll_lighter lightens [] text changed
  rw [List.nil_append,List.nil_append,same] at lighter
  exact lt_irrefl _ lighter

theorem replaceAll_eq_self_iff_unread [Preorder β] {weight : Text → β}
    (lightens : Lightens weight pattern render)
    (fresh : ∀ {text occurrence rest}, pattern.read? text = some (occurrence,rest) →
      (render occurrence).text ≠ pattern.source occurrence) {text : Text} :
    replaceAll pattern render text = text ↔
      ∀ ending, ending <:+ text → pattern.read? ending = none := by
  rw [replaceAll_eq_self_iff lightens,← pattern.scan_empty_iff]
  constructor
  · intro unchanged occurrence met
    obtain ⟨ending,rest,_,read⟩ := pattern.read?_of_found met
    exact unchanged ⟨occurrence,met,fresh read⟩
  · rintro absent ⟨occurrence,met,_⟩
    exact absent occurrence met

def Rewrites (pattern : Pattern α) (render : α → Logged) (before after : Text) : Prop :=
  ∀ rest, replaceAll pattern render (before ++ rest) = after ++ replaceAll pattern render rest

theorem Rewrites.nil : Rewrites pattern render [] [] := fun _ => rfl

theorem Rewrites.append {first next first' next' : Text}
    (one : Rewrites pattern render first first') (two : Rewrites pattern render next next') :
    Rewrites pattern render (first ++ next) (first' ++ next') := by
  intro rest
  rw [List.append_assoc,one,two,List.append_assoc]

theorem Rewrites.keep {c : Char} {before after : Text}
    (unread : ∀ rest, pattern.read? (c :: (before ++ rest)) = none)
    (inner : Rewrites pattern render before after) :
    Rewrites pattern render (c :: before) (c :: after) := by
  intro rest
  rw [List.cons_append,replaceAll_kept (unread rest),inner rest,List.cons_append]

theorem Rewrites.occurrence {before : Text} {occurrence : α}
    (read : ∀ rest, pattern.read? (before ++ rest) = some (occurrence,rest)) :
    Rewrites pattern render before (render occurrence).text :=
  fun rest => replaceAll_found (read rest)

theorem Rewrites.without {trigger : Char}
    (begins : ∀ c text, c ≠ trigger → pattern.read? (c :: text) = none) {block : Text}
    (absent : trigger ∉ block) : Rewrites pattern render block block := by
  induction block with
  | nil => exact .nil
  | cons c block ih =>
    simp only [List.mem_cons,not_or] at absent
    exact .keep (fun rest => begins _ _ (Ne.symm absent.1)) (ih absent.2)

theorem Rewrites.flatMap {items : List ι} {before after : ι → Text}
    (each : ∀ item ∈ items, Rewrites pattern render (before item) (after item)) :
    Rewrites pattern render (items.flatMap before) (items.flatMap after) := by
  induction items with
  | nil => exact .nil
  | cons item items ih =>
    rw [List.flatMap_cons,List.flatMap_cons]
    exact (each item List.mem_cons_self).append
      (ih fun other member => each other (List.mem_cons_of_mem _ member))

theorem Rewrites.whole {before after : Text} (rewrites : Rewrites pattern render before after) :
    replaceAll pattern render before = after := by
  have whole := rewrites []
  rwa [List.append_nil,replaceAll_nil,List.append_nil] at whole

end Plainmark.Substitution

namespace Plainmark.Conversion

theorem through_text (context : Context) (stages : List Stage) (text : Text) :
    (through context stages text).text =
      stages.foldl (fun done stage => (stage.apply context done).text) text := by
  unfold through
  generalize ([] : List Record) = records
  induction stages generalizing text records with
  | nil => rfl
  | cons stage stages ih => exact ih _ _

end Plainmark.Conversion
