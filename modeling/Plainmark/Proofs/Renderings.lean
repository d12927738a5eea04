import Mathlib.Tactic.Tauto
import Plainmark.Proofs.Grammar
import Plainmark.Proofs.Rewriting
import Plainmark.Proofs.Slugs

namespace Plainmark

def Context.standard (path : Path) (shelf : Shelf) : Context := ⟨path,shelf,{}⟩

inductive Family where
  | glossary
  | element
  | css
  | httpStatus
  | interface
deriving DecidableEq

end Plainmark

namespace Plainmark.Form

theorem fits_of_found {form : Form} {text : Text} {found : Macro}
    (met : .found found ∈ form.pattern.scan text) :
    Macro.Fits form found ∧ Macro.source found <:+: text := by
  obtain ⟨ending,rest,⟨front,whole⟩,read⟩ := form.pattern.read?_of_found met
  obtain ⟨rfl,fits⟩ := read?_eq_some_iff.mp read
  exact ⟨fits,front,rest,by rw [List.append_assoc,whole]⟩

end Plainmark.Form

namespace Plainmark.Macro

theorem mem_display {found : Macro} {c : Char} (member : c ∈ found.display) :
    c ∈ found.term ∨ ∃ label, found.label = some label ∧ c ∈ label.text := by
  unfold display at member
  split at member
  · rename_i label same
    split at member
    · exact .inl member
    · exact .inr ⟨label,same,member⟩
  · exact .inl member

end Plainmark.Macro

namespace Plainmark.Reference
open Text

theorem mem_interfacePath {term : Text} {c : Char} (member : c ∈ interfacePath term) :
    c ∈ term ∨ c = '/' := by
  unfold interfacePath at member
  split at member
  · exact .inl member
  · rename_i interface inner found
    have shape := (closedBy?_canonical found).1
    split at member
    · exact .inl (by rw [shape]; exact List.mem_append_left _ member)
    · rcases List.mem_append.mp member with front | behind
      · rcases List.mem_append.mp front with inside | slash
        · exact .inl (by rw [shape]; exact List.mem_append_left _ inside)
        · exact .inr (List.mem_singleton.mp slash)
      · exact .inl (by rw [shape]; exact List.mem_append_right _ (List.mem_cons_of_mem _ behind))

end Plainmark.Reference

namespace Plainmark.Family
open Text

def form : Family → Form
  | .glossary => Glossary.bareForm
  | .element => Reference.elementForm
  | .css => Reference.cssForm
  | .httpStatus => Reference.statusForm
  | .interface => Reference.interfaceForm

def stage : Family → Stage
  | .glossary => .glossary
  | .element => .element
  | .css => .css
  | .httpStatus => .httpStatus
  | .interface => .interface

def render (context : Context) : Family → Macro → Logged
  | .glossary,found => Glossary.inlineLink context found
  | .element,found => ⟨Reference.elementLink context.settings found,[]⟩
  | .css,found => ⟨Reference.cssLink context.settings found,[]⟩
  | .httpStatus,found => ⟨Reference.statusLink context.settings found,[]⟩
  | .interface,found => ⟨Reference.interfaceLink context.settings found,[]⟩

theorem apply_text (family : Family) (context : Context) (text : Text) :
    (family.stage.apply context text).text =
      Substitution.replaceAll family.form.pattern (family.render context) text := by
  cases family <;> rfl

theorem bare (family : Family) : family.form.wrapped = false := by cases family <;> rfl

def label : Family → Macro → Text
  | .element,found => Reference.code (['<'] ++ found.display ++ ['>'])
  | .css,found => Reference.code found.term
  | _,found => found.display

def docs : Text := "https://developer.mozilla.org/en-US/docs/".toList

theorem docsUrl_standard : ({} : Settings).docsUrl = docs := rfl

def glossaryAddress (path : Path) (shelf : Shelf) (term : Text) : Text :=
  if shelf "glossary".toList term then
    Resource.climb path.depth ++ "resources/glossary/".toList ++ term ++ ".md".toList
  else docs ++ "Glossary/".toList ++ Slug.ofTerm term

def address (path : Path) (shelf : Shelf) : Family → Text → Text
  | .glossary,term => glossaryAddress path shelf term
  | .element,term => docs ++ "Web/HTML/Element/".toList ++ term
  | .css,term => docs ++ "Web/CSS/".toList ++ term
  | .httpStatus,term => docs ++ "Web/HTTP/Status/".toList ++ term
  | .interface,term => docs ++ "Web/API/".toList ++ Reference.interfacePath term

theorem target_standard (path : Path) (shelf : Shelf) (term : Text) :
    (Glossary.target (.standard path shelf) term).text = glossaryAddress path shelf term := by
  unfold Glossary.target glossaryAddress Context.standard Resource.glossary
  dsimp only
  by_cases present : shelf "glossary".toList term = true
  · rw [if_pos present,if_pos present]
    simp [Resource.link,Resource.fileName]
  · rw [if_neg present,if_neg present]
    simp only [Settings.glossaryUrl,docsUrl_standard]

theorem render_standard (family : Family) (path : Path) (shelf : Shelf) (found : Macro) :
    (family.render (.standard path shelf) found).text =
      Reference.linkTo (family.label found) (family.address path shelf found.term) := by
  cases family with
  | glossary =>
    rw [address,← target_standard]
    rfl
  | element =>
    simp only [render,Reference.elementLink,Settings.elementUrl,Context.standard,docsUrl_standard,
      label,address]
  | css =>
    simp only [render,Reference.cssLink,Settings.cssUrl,Context.standard,docsUrl_standard,
      label,address]
  | httpStatus =>
    simp only [render,Reference.statusLink,Settings.httpStatusUrl,Context.standard,
      docsUrl_standard,label,address]
  | interface =>
    simp only [render,Reference.interfaceLink,Settings.apiUrl,Context.standard,docsUrl_standard,
      label,address]

def isFurniture (c : Char) : Bool := c.isAlphanum || c ∈ [':','/','.','-','_']

theorem mem_climb {depth : Nat} {c : Char} (member : c ∈ Resource.climb depth) :
    isFurniture c = true := by
  induction depth with
  | zero => cases member
  | succ depth ih =>
    rcases List.mem_append.mp member with step | above
    · have all : ∀ c ∈ "../".toList, isFurniture c = true := by decide
      exact all c step
    · exact ih above

theorem mem_glossaryAddress {path : Path} {shelf : Shelf} {term : Text} {c : Char}
    (member : c ∈ glossaryAddress path shelf term) : c ∈ term ∨ isFurniture c = true ∨ Raised c := by
  unfold glossaryAddress at member
  split at member
  · have all : ∀ c ∈ "resources/glossary/".toList ++ ".md".toList, isFurniture c = true := by decide
    simp only [List.mem_append] at member all
    rcases member with ((above | folder) | inside) | ending
    · exact .inr (.inl (mem_climb above))
    · exact .inr (.inl (all c (.inl folder)))
    · exact .inl inside
    · exact .inr (.inl (all c (.inr ending)))
  · have all : ∀ c ∈ docs ++ "Glossary/".toList, isFurniture c = true := by decide
    rcases List.mem_append.mp member with fixed | slug
    · exact .inr (.inl (all c fixed))
    · rcases Slug.mem_ofTerm slug with inside | rfl | raised
      · exact .inl inside
      · exact .inr (.inl (by decide))
      · exact .inr (.inr raised)

theorem mem_address {family : Family} {path : Path} {shelf : Shelf} {term : Text} {c : Char}
    (member : c ∈ family.address path shelf term) : c ∈ term ∨ isFurniture c = true ∨ Raised c := by
  have page : ∀ {folder rest : Text}, (∀ c ∈ folder, isFurniture c = true) → c ∈ folder ++ rest →
      isFurniture c = true ∨ c ∈ rest := by
    intro folder rest fixed inside
    rcases List.mem_append.mp inside with front | behind
    · exact .inl (fixed c front)
    · exact .inr behind
  cases family with
  | glossary => exact mem_glossaryAddress member
  | element =>
    rcases page (by decide) member with fixed | inside
    · exact .inr (.inl fixed)
    · exact .inl inside
  | css =>
    rcases page (by decide) member with fixed | inside
    · exact .inr (.inl fixed)
    · exact .inl inside
  | httpStatus =>
    rcases page (by decide) member with fixed | inside
    · exact .inr (.inl fixed)
    · exact .inl inside
  | interface =>
    rcases page (by decide) member with fixed | inside
    · exact .inr (.inl fixed)
    · rcases Reference.mem_interfacePath inside with term | rfl
      · exact .inl term
      · exact .inr (.inl (by decide))

theorem mem_label {family : Family} {found : Macro} {c : Char} (member : c ∈ family.label found) :
    c ∈ found.display ∨ c ∈ found.term ∨ c ∈ ['\x60','<','>'] := by
  cases family with
  | glossary => exact .inl member
  | httpStatus => exact .inl member
  | interface => exact .inl member
  | element =>
    simp only [label,Reference.code,List.mem_append,List.mem_singleton] at member
    simp only [List.mem_cons,List.not_mem_nil,or_false]
    tauto
  | css =>
    simp only [label,Reference.code,List.mem_append,List.mem_singleton] at member
    simp only [List.mem_cons,List.not_mem_nil,or_false]
    tauto

-- Characters of a link that come from its macro and from nowhere else.
def Foreign (c : Char) : Prop := isFurniture c = false ∧ c ∉ "[]()<>\x60".toList ∧ ¬ Raised c

theorem not_mem_glossaryAddress {path : Path} {shelf : Shelf} {term : Text} {c : Char}
    (foreign : isFurniture c = false ∧ ¬ Raised c) (absent : c ∉ term) :
    c ∉ glossaryAddress path shelf term := by
  intro member
  rcases mem_glossaryAddress member with inside | fixed | raised
  · exact absent inside
  · exact absurd fixed (by simp [foreign.1])
  · exact foreign.2 raised

theorem not_mem_display {found : Macro} {c : Char} (term : c ∉ found.term)
    (label : ∀ label, found.label = some label → c ∉ label.text) : c ∉ found.display := by
  intro member
  rcases Macro.mem_display member with inside | ⟨given,same,inside⟩
  · exact term inside
  · exact label given same inside

theorem not_mem_render {family : Family} {path : Path} {shelf : Shelf} {found : Macro} {c : Char}
    (foreign : Foreign c) (term : c ∉ found.term)
    (labels : ∀ label, found.label = some label → c ∉ label.text) :
    c ∉ (family.render (.standard path shelf) found).text := by
  intro member
  obtain ⟨fixed,marks,unraised⟩ := foreign
  rw [render_standard] at member
  simp only [Reference.linkTo,List.mem_append] at member
  have mark : ∀ {text : Text}, (∀ d ∈ text, d ∈ "[]()<>\x60".toList) → c ∉ text :=
    fun inside member => marks (inside c member)
  rcases member with (((bracket | shown) | middle) | address) | parenthesis
  · exact mark (by decide) bracket
  · rcases mem_label shown with display | inside | code
    · exact not_mem_display term labels display
    · exact term inside
    · exact mark (by decide) code
  · exact mark (by decide) middle
  · rcases mem_address address with inside | furnished | raised
    · exact term inside
    · exact absurd furnished (by simp [fixed])
    · exact unraised raised
  · exact mark (by decide) parenthesis

end Plainmark.Family
