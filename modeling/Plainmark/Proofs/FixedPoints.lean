import Plainmark.Proofs.Convergence
import Plainmark.Proofs.Navigation

namespace Plainmark

inductive Convertible : Text → Prop where
  | reference (family : Family) (found : Macro) (fits : Macro.Fits family.form found) :
      Convertible (Macro.source found)
  | navigation (call : Scaffold.Call) (fits : call.Fits) : Convertible call.source
  | link (label ending : Text) (named : label ≠ []) (labelled : ']' ∉ label)
      (filled : ending ≠ []) (closed : ')' ∉ ending) :
      Convertible (Link.source ⟨label,"/en-US/docs/".toList ++ ending⟩)

-- A text that has nothing left to convert. Images are asked in the order in
-- which they are met, since one may stand in the alternative text of another.
structure AtRest (text : Text) : Prop where
  converted : ∀ part, Convertible part → ¬ part <:+: text
  images : ∀ image, .found image ∈ Image.pattern.scan text →
    Image.settled "assets".toList image.target = true

end Plainmark

namespace Plainmark.Family
open Text Substitution

theorem quote_mem_source (found : Macro) : '"' ∈ Macro.source found := by
  have body : '"' ∈ Macro.bodySource found := by simp [Macro.bodySource,Macro.quote]
  unfold Macro.source
  split
  · exact body
  · simp [body]

theorem render_fresh (family : Family) (path : Path) (shelf : Shelf) {found : Macro}
    (fits : Macro.Fits family.form found) :
    (family.render (.standard path shelf) found).text ≠ Macro.source found := by
  intro same
  have quoted := quote_mem_source found
  rw [← same] at quoted
  exact not_mem_render quote_foreign fits.term fits.label quoted

theorem read?_eq_none_iff (form : Form) (text : Text) : Macro.read? form text = none ↔
    ∀ part, (∃ found, Macro.Fits form found ∧ part = Macro.source found) →
      ∀ behind, text ≠ part ++ behind := by
  rw [Option.eq_none_iff_forall_ne_some]
  constructor
  · rintro unread _ ⟨found,fits,rfl⟩ behind rfl
    exact unread (found,behind) (Macro.read?_eq_some_iff.mpr ⟨rfl,fits⟩)
  · rintro absent ⟨found,rest⟩ read
    obtain ⟨shape,fits⟩ := Macro.read?_eq_some_iff.mp read
    exact absent _ ⟨found,fits,rfl⟩ rest shape

theorem idle_iff (family : Family) (path : Path) (shelf : Shelf) (text : Text) :
    (family.stage.apply (.standard path shelf) text).text = text ↔
      ∀ found, Macro.Fits family.form found → ¬ Macro.source found <:+: text := by
  have fresh : ∀ {text found rest}, family.form.pattern.read? text = some (found,rest) →
      (family.render (.standard path shelf) found).text ≠ family.form.pattern.source found :=
    fun read => family.render_fresh path shelf (Macro.read?_eq_some_iff.mp read).2
  rw [apply_text,replaceAll_eq_self_iff_unread (family.lightens path shelf) fresh,
    Pattern.unread_iff (read?_eq_none_iff family.form)]
  constructor
  · intro absent found fits
    exact absent _ ⟨found,fits,rfl⟩
  · rintro absent _ ⟨found,fits,rfl⟩
    exact absent found fits

end Plainmark.Family

namespace Plainmark.Glossary
open Text Substitution

theorem wrapped_idle {path : Path} {shelf : Shelf} {text : Text}
    (bare : ∀ found, Macro.Fits bareForm found → ¬ Macro.source found <:+: text) :
    (Stage.wrappedGlossary.apply (.standard path shelf) text).text = text := by
  refine replaceAll_unchanged ?_
  rintro ⟨found,met,_⟩
  obtain ⟨fits,outer⟩ := Form.fits_of_found met
  refine bare ⟨found.name,found.term,found.label,none⟩
    ⟨⟨fits.name,fits.named,fits.term,fits.labelled,fits.gap,fits.label⟩,rfl⟩ ?_
  have inner : Macro.bodySource found <:+: Macro.source found := by
    unfold Macro.source
    split
    · exact List.infix_refl _
    · exact List.infix_append _ _ _
  exact inner.trans outer

end Plainmark.Glossary

namespace Plainmark.Scaffold
open Text Substitution

theorem idle_iff (context : Context) (text : Text) :
    (Stage.scaffold.apply context text).text = text ↔
      ∀ call : Call, call.Fits → ¬ call.source <:+: text := by
  have fresh : ∀ {text found rest}, pattern.read? text = some (found,rest) →
      (Stage.drop found).text ≠ pattern.source found :=
    fun read => (read?_visible read).symm
  have spells : ∀ text, pattern.read? text = none ↔
      ∀ part, (∃ call : Call, call.Fits ∧ part = call.source) → ∀ behind, text ≠ part ++ behind := by
    intro text
    refine read?_eq_none_iff.trans ⟨?_,fun absent call fits => absent _ ⟨call,fits,rfl⟩⟩
    rintro absent _ ⟨call,fits,rfl⟩
    exact absent call fits
  refine (replaceAll_eq_self_iff_unread lightens fresh).trans ?_
  rw [Pattern.unread_iff spells]
  constructor
  · intro absent call fits
    exact absent _ ⟨call,fits,rfl⟩
  · rintro absent _ ⟨call,fits,rfl⟩
    exact absent call fits

end Plainmark.Scaffold

namespace Plainmark.Link
open Text Substitution

theorem idle_iff (path : Path) (shelf : Shelf) (text : Text) :
    (Stage.docsLink.apply (.standard path shelf) text).text = text ↔
      ∀ label ending, label ≠ [] → ']' ∉ label → ending ≠ [] → ')' ∉ ending →
        ¬ source ⟨label,"/en-US/docs/".toList ++ ending⟩ <:+: text := by
  have fresh : ∀ {text link rest}, (pattern ({} : Settings).docsPrefix).read? text = some (link,rest) →
      (Stage.withDomain {} link).text ≠ source link := by
    intro text link rest _ same
    have longer := congrArg List.length same
    rw [Stage.withDomain,domain_standard] at longer
    simp [source] at longer
    omega
  have spells : ∀ text, (pattern ({} : Settings).docsPrefix).read? text = none ↔ ∀ part,
      (∃ label ending, (label ≠ [] ∧ ']' ∉ label ∧ ending ≠ [] ∧ ')' ∉ ending) ∧
        part = source ⟨label,"/en-US/docs/".toList ++ ending⟩) → ∀ behind, text ≠ part ++ behind := by
    intro text
    rw [docsPrefix_standard,Option.eq_none_iff_forall_ne_some]
    constructor
    · rintro unread _ ⟨label,ending,⟨named,labelled,filled,closed⟩,rfl⟩ behind rfl
      exact unread (_,behind)
        (read?_eq_some_iff.mpr ⟨rfl,named,labelled,ending,rfl,filled,closed⟩)
    · rintro absent ⟨⟨label,target⟩,rest⟩ read
      obtain ⟨shape,named,labelled,ending,rfl,filled,closed⟩ := read?_eq_some_iff.mp read
      exact absent _ ⟨label,ending,⟨named,labelled,filled,closed⟩,rfl⟩ rest shape
  refine (replaceAll_eq_self_iff_unread lightens fresh).trans ?_
  rw [Pattern.unread_iff spells]
  constructor
  · intro absent label ending named labelled filled closed
    exact absent _ ⟨label,ending,⟨named,labelled,filled,closed⟩,rfl⟩
  · rintro absent _ ⟨label,ending,⟨named,labelled,filled,closed⟩,rfl⟩
    exact absent label ending named labelled filled closed

end Plainmark.Link

namespace Plainmark.Image
open Text Substitution

theorem moved_eq_source_iff (folder : Text) (image : Image) :
    moved folder image = source image ↔ settled folder image.target = true := by
  unfold moved
  cases settles : settled folder image.target with
  | true => simp
  | false =>
    simp only [Bool.false_eq_true,if_false,iff_false]
    intro same
    have longer := congrArg List.length same
    simp [source] at longer
    omega

theorem idle_iff (path : Path) (shelf : Shelf) (text : Text) :
    (Stage.image.apply (.standard path shelf) text).text = text ↔
      ∀ image, .found image ∈ pattern.scan text → settled "assets".toList image.target = true := by
  refine (replaceAll_eq_self_iff lightens).trans ?_
  rw [assetsDir_standard]
  constructor
  · intro unchanged image met
    by_contra unsettled
    exact unchanged ⟨image,met,fun same => unsettled ((moved_eq_source_iff _ _).mp same)⟩
  · rintro settles ⟨image,met,changed⟩
    exact changed ((moved_eq_source_iff _ _).mpr (settles image met))

end Plainmark.Image

namespace Plainmark.Conversion
open Text

theorem once_eq_self_iff_atRest (path : Path) (shelf : Shelf) (text : Text) :
    once path shelf text = text ↔ AtRest text := by
  rw [once_eq_self_iff]
  constructor
  · intro idle
    refine ⟨fun part convertible => ?_,?_⟩
    · cases convertible with
      | reference family found fits =>
        refine (family.idle_iff path shelf text).mp (idle _ ?_) found fits
        cases family <;> decide
      | navigation call fits =>
        exact (Scaffold.idle_iff _ text).mp (idle .scaffold (by decide)) call fits
      | link label ending named labelled filled closed =>
        exact (Link.idle_iff path shelf text).mp (idle .docsLink (by decide))
          label ending named labelled filled closed
    · exact (Image.idle_iff path shelf text).mp (idle .image (by decide))
  · intro rest stage _
    have family : ∀ family : Family, (family.stage.apply (.standard path shelf) text).text = text :=
      fun family => (family.idle_iff path shelf text).mpr
        fun found fits => rest.converted _ (.reference family found fits)
    cases stage with
    | wrappedGlossary =>
      exact Glossary.wrapped_idle fun found fits =>
        rest.converted _ (.reference .glossary found fits)
    | glossary => exact family .glossary
    | scaffold =>
      exact (Scaffold.idle_iff _ text).mpr fun call fits =>
        rest.converted _ (.navigation call fits)
    | docsLink =>
      exact (Link.idle_iff path shelf text).mpr fun label ending named labelled filled closed =>
        rest.converted _ (.link label ending named labelled filled closed)
    | image => exact (Image.idle_iff path shelf text).mpr rest.images
    | element => exact family .element
    | css => exact family .css
    | httpStatus => exact family .httpStatus
    | interface => exact family .interface

-- One run is enough exactly for the texts whose conversion is at rest.
theorem second_run_idle_iff (path : Path) (shelf : Shelf) (text : Text) :
    once path shelf (once path shelf text) = once path shelf text ↔
      AtRest (once path shelf text) :=
  once_eq_self_iff_atRest path shelf _

-- A navigation macro inside the name of another one: taking the inner one away
-- spells the outer one.
theorem split_navigation_needs_two_runs :
    once ⟨.relative,["index.md".toList]⟩ (fun _ _ => false)
        "\x7b\x7bLearnSide\x7b\x7bLearnSidebar\x7d\x7dbar\x7d\x7d".toList = "\x7b\x7bLearnSidebar\x7d\x7d".toList ∧
      once ⟨.relative,["index.md".toList]⟩ (fun _ _ => false) "\x7b\x7bLearnSidebar\x7d\x7d".toList = [] := by
  decide +kernel

end Plainmark.Conversion
