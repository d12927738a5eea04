import Plainmark.Proofs.Navigation
import Plainmark.Proofs.Renderings
import Plainmark.Proofs.Weight

namespace Plainmark.Macro
open Text

theorem openQuotes_bodySource (found : Macro) (previous : Char) :
    1 + (if isSpent (found.term.getLastD '"') = true then 0 else 1) ≤
      openQuotes previous (bodySource found) := by
  have shape : bodySource found = ('\x7b' :: '\x7b' :: found.name ++ ['(']) ++
      ('"' :: (found.term ++ '"' :: (labelSource found.label ++ [')','\x7d','\x7d']))) := by
    simp [bodySource,quote]
  have unspent : isSpent '(' = false := rfl
  rw [shape,openQuotes_append,List.getLastD_concat,openQuotes_quote,
    openQuotes_append '"' found.term,openQuotes_quote,unspent]
  simp only [Bool.false_eq_true,if_false]
  omega

theorem bodySource_concat (found : Macro) : ∃ old, bodySource found = old ++ ['\x7d'] :=
  ⟨['\x7b','\x7b'] ++ found.name ++ ['(',quote] ++ found.term ++ [quote] ++
    labelSource found.label ++ [')','\x7d'],by simp [bodySource]⟩

end Plainmark.Macro

namespace Plainmark.Family
open Text Substitution

theorem quote_foreign : Foreign '"' := ⟨by decide,by decide,by decide⟩

theorem render_concat (family : Family) (path : Path) (shelf : Shelf) (found : Macro) :
    ∃ new, (family.render (.standard path shelf) found).text = new ++ [')'] :=
  ⟨['['] ++ family.label found ++ [']','('] ++ family.address path shelf found.term,by
    rw [render_standard,Reference.linkTo]⟩

theorem lightens (family : Family) (path : Path) (shelf : Shelf) :
    Lightens weight family.form.pattern (family.render (.standard path shelf)) := by
  intro front text found rest read _
  obtain ⟨rfl,fits⟩ := Macro.read?_eq_some_iff.mp read
  have source : Macro.source found = Macro.bodySource found := by
    simp [Macro.source,Macro.untagged fits family.bare]
  obtain ⟨old,oldShape⟩ := Macro.bodySource_concat found
  obtain ⟨new,newShape⟩ := family.render_concat path shelf found
  refine weight_lt_of_quotes ?_
  rw [source,oldShape,newShape]
  refine openQuotes_exchange (by decide) (by decide) (fun previous => ?_) ' ' front rest
  have unquoted : '"' ∉ (family.render (.standard path shelf) found).text :=
    not_mem_render quote_foreign fits.term fits.label
  have opened := Macro.openQuotes_bodySource found previous
  rw [← newShape,← oldShape,openQuotes_unquoted unquoted]
  omega

end Plainmark.Family

namespace Plainmark.Glossary
open Text Substitution

theorem isSpent_address {path : Path} {shelf : Shelf} {term : Text} (named : term ≠ [])
    (spent : isSpent (term.getLastD '"') = true) :
    isSpent ((Family.glossaryAddress path shelf term).getLastD '"') = true := by
  unfold Family.glossaryAddress
  split
  · rw [show ".md".toList = ['.','m'] ++ ['d'] from rfl,← List.append_assoc,List.getLastD_concat]
    rfl
  · obtain ⟨c,ending⟩ : ∃ c, term.getLast? = some c := ⟨_,List.getLast?_eq_some_getLast named⟩
    rw [List.getLastD_eq_getLast?,ending,Option.getD_some] at spent
    have letters : c = '=' ∨ c = 'd' ∨ c = 'D' := by
      simpa [isSpent,or_assoc] using spent
    have visible : isBlank c = false := by
      rcases letters with rfl | rfl | rfl <;> decide
    have raised : ∃ d, (capital c).getLast? = some d ∧ isSpent d = true := by
      rcases letters with rfl | rfl | rfl
      · exact ⟨'=',by decide,rfl⟩
      · exact ⟨'D',by decide,rfl⟩
      · exact ⟨'D',by decide,rfl⟩
    rw [List.getLastD_eq_getLast?,List.getLast?_append]
    rcases Slug.ofTerm_getLast? ending visible with kept | capitals
    · rw [kept]
      exact spent
    · obtain ⟨d,last,spentToo⟩ := raised
      rw [capitals,last]
      exact spentToo

theorem openQuotes_anchor (path : Path) (shelf : Shelf) {found : Macro}
    (spoken : Macro.Spoken wrappedForm found) (previous : Char) :
    openQuotes previous ("<a href=\"".toList ++ Family.glossaryAddress path shelf found.term ++
      "\">".toList ++ found.display ++ "</a>".toList) <
        openQuotes previous (Macro.bodySource found) := by
  have address : '"' ∉ Family.glossaryAddress path shelf found.term :=
    Family.not_mem_glossaryAddress (by decide) spoken.term
  have shown : '"' ∉ '>' :: (found.display ++ "</a>".toList) := by
    have display : '"' ∉ found.display := Family.not_mem_display spoken.term spoken.label
    simp [display]
  have shape : "<a href=\"".toList ++ Family.glossaryAddress path shelf found.term ++ "\">".toList ++
      found.display ++ "</a>".toList = ("<a href".toList ++ ['=']) ++
        ('"' :: (Family.glossaryAddress path shelf found.term ++
          '"' :: ('>' :: (found.display ++ "</a>".toList)))) := by simp
  have opened := Macro.openQuotes_bodySource found previous
  have equals : isSpent '=' = true := rfl
  rw [shape,openQuotes_append,openQuotes_unquoted (by decide),List.getLastD_concat,openQuotes_quote,
    openQuotes_append,openQuotes_unquoted address,openQuotes_quote,openQuotes_unquoted shown,equals]
  by_cases spent : isSpent (found.term.getLastD '"') = true
  · rw [isSpent_address spoken.named spent]
    simp only [if_true]
    omega
  · rw [if_neg spent] at opened
    rw [if_pos rfl]
    split <;> omega

theorem anchor_lightens (path : Path) (shelf : Shelf) :
    Lightens weight wrappedForm.pattern (anchor (.standard path shelf)) := by
  intro front text found rest read _
  obtain ⟨rfl,fits⟩ := Form.read?_eq_some_iff.mp read
  obtain ⟨opening,closing,tags,_,_⟩ := fits.tagged rfl
  obtain ⟨old,oldShape⟩ := Macro.bodySource_concat found
  have fewer := openQuotes_anchor path shelf fits.toSpoken
  refine weight_lt_of_quotes ?_
  have source : front ++ (Macro.source found ++ rest) = (front ++ '<' :: opening ++ ['>']) ++
      ((old ++ ['\x7d']) ++ ('<' :: '/' :: closing ++ ['>'] ++ rest)) := by
    rw [← oldShape]
    simp [Macro.source,tags]
  have rendered : front ++ ((anchor (.standard path shelf) found).text ++ rest) =
      (front ++ '<' :: opening ++ ['>']) ++ ((("<a href=\"".toList ++
        Family.glossaryAddress path shelf found.term ++ "\">".toList ++ found.display ++
          "</a".toList) ++ ['>']) ++ ('<' :: '/' :: closing ++ ['>'] ++ rest)) := by
    simp [anchor,tags,Family.target_standard]
  rw [source,rendered]
  refine openQuotes_exchange (by decide) (by decide) (fun previous => ?_) ' ' _ _
  rw [← oldShape]
  simpa using fewer previous

end Plainmark.Glossary

namespace Plainmark.Scaffold
open Text Substitution

theorem Tail.blank {spaces ending behind : Text} (tail : Tail spaces ending behind) :
    ∀ c ∈ spaces ++ ending, c ∈ [' ','\t','\r','\n'] := by
  intro c member
  rcases List.mem_append.mp member with space | broken
  · rcases tail.spaces c space with rfl | rfl <;> simp
  · rcases tail.ending with rfl | rfl | ⟨rfl,_⟩
    · rw [List.mem_singleton.mp broken]
      simp
    · simp only [List.mem_cons,List.not_mem_nil,or_false] at broken
      rcases broken with rfl | rfl <;> simp
    · cases broken

-- A removal ends in a character that spends no quotation mark, so what follows
-- has no more of them than before.
theorem lightens : Lightens weight pattern Stage.drop := by
  intro front text found rest read _
  have whole : text = found ++ rest := read?_canonical read
  obtain ⟨call,spaces,ending,_,shape,tail⟩ := read?_tail read
  have blank := tail.blank
  generalize spaces ++ ending = tail at shape blank
  rw [Call.source] at shape
  have last : ∀ previous, isSpent (found.getLastD previous) = false := by
    intro previous
    rcases List.eq_nil_or_concat tail with rfl | ⟨others,c,rfl⟩
    · rw [shape,List.append_nil,show ['\x7d','\x7d'] = ['\x7d'] ++ ['\x7d'] from rfl,
        ← List.append_assoc,List.getLastD_concat]
      rfl
    · rw [shape,List.concat_eq_append,← List.append_assoc,List.getLastD_concat]
      have listed := blank c (by simp)
      simp only [List.mem_cons,List.not_mem_nil,or_false] at listed
      rcases listed with rfl | rfl | rfl | rfl <;> rfl
  refine weight_lt_of_braces ?_ ?_
  · rw [whole,Stage.drop,List.nil_append,openQuotes_append,openQuotes_append,openQuotes_append]
    have fewer := openQuotes_le (last (front.getLastD ' ')) (front.getLastD ' ') rest
    omega
  · have braces : ['\x7b','\x7b'].count '\x7b' = 2 := rfl
    rw [whole,shape,Stage.drop]
    simp only [List.nil_append,List.count_append,braces]
    omega

end Plainmark.Scaffold

namespace Plainmark.Link
open Text Substitution

theorem domain_standard : stripSlashesRight ({} : Settings).domain =
    "https://developer.mozilla.or".toList ++ ['g'] := rfl

theorem docsPrefix_standard : ({} : Settings).docsPrefix = "/en-US/docs/".toList := rfl

theorem lightens : Lightens weight (pattern ({} : Settings).docsPrefix) (Stage.withDomain {}) := by
  intro front text link rest read _
  obtain ⟨rfl,_,_,ending,target,_,_⟩ := read?_eq_some_iff.mp read
  rw [docsPrefix_standard] at target
  have loose : isLoose (']' :: '(' :: (link.target ++ ')' :: rest)) = true := by
    rw [target]
    rfl
  have lighter := weight_lt_of_start "https://developer.mozilla.or".toList 'g'
    rfl (by decide) (by decide) (by decide) (fun _ => rfl) loose (front ++ '[' :: link.label)
  rw [Stage.withDomain,domain_standard]
  simpa [source] using lighter

end Plainmark.Link

namespace Plainmark.Image
open Text Substitution

theorem assetsDir_standard : stripSlashes ({} : Settings).assetsDir = "assets".toList := rfl

theorem lightens : Lightens weight pattern
    fun image => ⟨moved (stripSlashes ({} : Settings).assetsDir) image,[]⟩ := by
  intro front text image rest read changed
  obtain ⟨rfl,_,_,_,offWeb⟩ := read?_eq_some_iff.mp read
  rw [assetsDir_standard] at changed ⊢
  have unsettled : settled "assets".toList image.target = false := by
    cases settles : settled "assets".toList image.target with
    | false => rfl
    | true =>
      refine absurd ?_ changed
      show moved "assets".toList image = source image
      rw [moved,if_pos settles]
  have loose : isLoose (']' :: '(' :: (image.target ++ ')' :: rest)) = true := by
    simp only [settled,onWeb,Bool.or_eq_false_iff] at unsettled offWeb
    have folder := after?_behind "assets/".toList ')' (by decide) image.target rest
    have web := after?_behind "https://".toList ')' (by decide) image.target rest
    have outside : (after? "assets/".toList image.target).isNone = true := by
      simpa using unsettled.2
    have secure : (after? "https://".toList image.target).isNone = true := by simpa using offWeb.2
    rw [isLoose,show ']' :: '(' :: (image.target ++ ')' :: rest) =
      [']','('] ++ (image.target ++ ')' :: rest) from rfl,after?_append]
    simp only [folder,web,outside,secure,Bool.and_self]
  have lighter := weight_lt_of_start "assets".toList '/' rfl (by decide)
    (by decide) (by decide) (fun _ => rfl) loose (front ++ '!' :: '[' :: image.alt)
  simp only [moved,unsettled,Bool.false_eq_true,if_false]
  simpa [source] using lighter

end Plainmark.Image

namespace Plainmark.Conversion
open Text Substitution

def once (path : Path) (shelf : Shelf) (text : Text) : Text :=
  (convert (.standard path shelf) text).text

theorem stage_lighter (path : Path) (shelf : Shelf) (stage : Stage) (text : Text) :
    (stage.apply (.standard path shelf) text).text = text ∨
      weight (stage.apply (.standard path shelf) text).text < weight text := by
  have step : ∀ {α : Type} {pattern : Pattern α} {render : α → Logged},
      Lightens weight pattern render → replaceAll pattern render text = text ∨
        weight (replaceAll pattern render text) < weight text := by
    intro α pattern render lightens
    by_cases changed : Changed pattern render text
    · exact .inr (replaceAll_lighter lightens [] text changed)
    · exact .inl (replaceAll_unchanged changed)
  cases stage with
  | wrappedGlossary => exact step (Glossary.anchor_lightens path shelf)
  | glossary => exact step (Family.lightens .glossary path shelf)
  | scaffold => exact step Scaffold.lightens
  | docsLink => exact step Link.lightens
  | image => exact step Image.lightens
  | element => exact step (Family.lightens .element path shelf)
  | css => exact step (Family.lightens .css path shelf)
  | httpStatus => exact step (Family.lightens .httpStatus path shelf)
  | interface => exact step (Family.lightens .interface path shelf)

theorem through_idle {context : Context} {stages : List Stage} {text : Text}
    (idle : ∀ stage ∈ stages, (stage.apply context text).text = text) :
    (through context stages text).text = text := by
  rw [through_text]
  induction stages with
  | nil => rfl
  | cons stage stages ih =>
    rw [List.foldl_cons,idle stage List.mem_cons_self]
    exact ih fun other member => idle other (List.mem_cons_of_mem _ member)

-- What one stage has changed, no later one changes back.
theorem through_lighter (path : Path) (shelf : Shelf) (stages : List Stage) (text : Text) :
    (∀ stage ∈ stages, (stage.apply (.standard path shelf) text).text = text) ∨
      weight (through (.standard path shelf) stages text).text < weight text := by
  induction stages generalizing text with
  | nil => exact .inl (fun _ member => by cases member)
  | cons stage stages ih =>
    rw [through_text,List.foldl_cons,← through_text]
    rcases stage_lighter path shelf stage text with same | lighter
    · rw [same]
      rcases ih text with idle | later
      · left
        intro other member
        rcases List.mem_cons.mp member with rfl | behind
        · exact same
        · exact idle other behind
      · exact .inr later
    · right
      rcases ih (stage.apply (.standard path shelf) text).text with idle | later
      · rwa [through_idle idle]
      · exact lt_trans later lighter

theorem once_eq_self_iff (path : Path) (shelf : Shelf) (text : Text) :
    once path shelf text = text ↔
      ∀ stage ∈ Stage.all, (stage.apply (.standard path shelf) text).text = text := by
  constructor
  · intro same
    rcases through_lighter path shelf Stage.all text with idle | lighter
    · exact idle
    · rw [once,convert] at same
      rw [same] at lighter
      exact absurd lighter (lt_irrefl _)
  · exact through_idle

theorem once_lighter {path : Path} {shelf : Shelf} {text : Text}
    (changed : once path shelf text ≠ text) : weight (once path shelf text) < weight text := by
  rcases through_lighter path shelf Stage.all text with idle | lighter
  · exact absurd ((once_eq_self_iff path shelf text).mpr idle) changed
  · exact lighter

-- Repeated runs come to rest: from some run on, no further one changes the text.
theorem runs_come_to_rest (path : Path) (shelf : Shelf) (text : Text) :
    ∃ runs, ∀ later, runs ≤ later →
      (once path shelf)^[later] text = (once path shelf)^[runs] text := by
  induction text using WellFounded.induction (InvImage.wf weight wellFounded_lt) with
  | h text ih =>
    by_cases fixed : once path shelf text = text
    · refine ⟨0,fun later _ => ?_⟩
      rw [Function.iterate_fixed fixed,Function.iterate_zero_apply]
    · obtain ⟨runs,settled⟩ := ih _ (once_lighter fixed)
      refine ⟨runs + 1,fun later enough => ?_⟩
      obtain ⟨more,rfl⟩ : ∃ more, later = more + 1 := ⟨later - 1,by omega⟩
      rw [Function.iterate_succ_apply,Function.iterate_succ_apply]
      exact settled more (by omega)

end Plainmark.Conversion
