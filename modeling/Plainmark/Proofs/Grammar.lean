import Mathlib.Data.List.Forall2
import Mathlib.Data.List.TakeWhile
import Plainmark.Link
import Plainmark.Macro

namespace Plainmark.Spelling

def Accepts (spelling : Spelling) (name : Text) : Prop :=
  List.Forall₂ (fun accepted c => c ∈ accepted) spelling name

theorem read?_accepts {spelling : Spelling} {text name rest : Text}
    (found : read? spelling text = some (name,rest)) : Accepts spelling name := by
  induction spelling generalizing text name with
  | nil =>
    simp only [read?,Option.some.injEq,Prod.mk.injEq] at found
    rw [← found.1]
    exact .nil
  | cons accepted spelling ih =>
    cases text with
    | nil => simp [read?] at found
    | cons c text =>
      simp only [read?] at found
      split at found
      · rename_i allowed
        obtain ⟨inner,read,pair⟩ := Option.map_eq_some_iff.mp found
        cases pair
        exact .cons allowed (ih read)
      · cases found

theorem read?_source {spelling : Spelling} {name : Text} (accepts : Accepts spelling name)
    (rest : Text) : read? spelling (name ++ rest) = some (name,rest) := by
  induction accepts with
  | nil => rfl
  | cons allowed _ ih => simp [read?,allowed,ih]

end Plainmark.Spelling

namespace Plainmark.Macro
open Text

-- What stands between the braces of a macro, told without its reader: a name of
-- the family, a term, and a label where the family takes one.
structure Spoken (form : Form) (found : Macro) : Prop where
  name : form.name.Accepts found.name
  named : found.term ≠ []
  term : quote ∉ found.term
  labelled : ∀ label, found.label = some label → form.arity = .termAndLabel
  gap : ∀ label, found.label = some label → ∀ c ∈ label.gap, isBlank c = true
  label : ∀ label, found.label = some label → quote ∉ label.text

def TagsFit (form : Form) : Option Tags → Prop
  | none => form.wrapped = false
  | some tags => form.wrapped = true ∧ ∃ opening closing,
      tags = ⟨'<' :: opening ++ ['>'],'<' :: '/' :: closing ++ ['>']⟩ ∧
        '>' ∉ opening ∧ '>' ∉ closing

structure Fits (form : Form) (found : Macro) : Prop extends Spoken form found where
  tags : TagsFit form found.tags

theorem untagged {form : Form} {found : Macro} (fits : Fits form found)
    (bare : form.wrapped = false) : found.tags = none := by
  cases tags : found.tags with
  | none => rfl
  | some given =>
    have wrapped := (tags ▸ fits.tags : TagsFit form (some given)).1
    rw [bare] at wrapped
    cases wrapped

theorem Fits.tagged {form : Form} {found : Macro} (fits : Fits form found)
    (wrapped : form.wrapped = true) : ∃ opening closing,
      found.tags = some ⟨'<' :: opening ++ ['>'],'<' :: '/' :: closing ++ ['>']⟩ ∧
        '>' ∉ opening ∧ '>' ∉ closing := by
  have tags := fits.tags
  cases tagged : found.tags with
  | none =>
    rw [tagged] at tags
    have bare : form.wrapped = false := tags
    rw [wrapped] at bare
    cases bare
  | some given =>
    rw [tagged] at tags
    obtain ⟨_,opening,closing,rfl,openTag,closeTag⟩ := tags
    exact ⟨opening,closing,rfl,openTag,closeTag⟩

theorem readQuoted?_eq_some_iff {text run rest : Text} :
    readQuoted? text = some (run,rest) ↔ text = quote :: run ++ quote :: rest ∧ quote ∉ run := by
  cases text with
  | nil => simp [readQuoted?]
  | cons c text =>
    by_cases same : c = quote
    · simp [readQuoted?,same,closedBy?_eq_some_iff]
    · simp [readQuoted?,same]

theorem readLabel?_source {label : Label} (gap : ∀ c ∈ label.gap, isBlank c = true)
    (text : quote ∉ label.text) (rest : Text) :
    readLabel? (labelSource (some label) ++ rest) = some (label,rest) := by
  have visible : isBlank quote = false := by decide
  have shape : labelSource (some label) ++ rest =
      ',' :: (label.gap ++ (quote :: label.text ++ quote :: rest)) := by simp [labelSource]
  rw [shape,readLabel?,if_pos rfl,List.dropWhile_append_of_pos gap,List.takeWhile_append_of_pos gap]
  have read := readQuoted?_eq_some_iff.mpr
    (⟨rfl,text⟩ : quote :: label.text ++ quote :: rest = quote :: label.text ++ quote :: rest ∧ _)
  simp only [List.cons_append,List.dropWhile_cons,List.takeWhile_cons,visible,Bool.false_eq_true,
    if_false,List.append_nil] at read ⊢
  rw [read]
  rfl

theorem readLabel?_fits {text rest : Text} {label : Label}
    (found : readLabel? text = some (label,rest)) :
    (∀ c ∈ label.gap, isBlank c = true) ∧ quote ∉ label.text := by
  cases text with
  | nil => simp [readLabel?] at found
  | cons c text =>
    simp only [readLabel?] at found
    split at found
    · obtain ⟨inner,read,pair⟩ := Option.map_eq_some_iff.mp found
      cases pair
      exact ⟨fun _ member => List.mem_takeWhile_imp member,(readQuoted?_eq_some_iff.mp read).2⟩
    · cases found

theorem readOptionalLabel_source {form : Form} {found : Macro} (spoken : Spoken form found)
    (rest : Text) : readOptionalLabel form.arity (labelSource found.label ++ ')' :: rest) =
      (found.label,')' :: rest) := by
  cases labelled : found.label with
  | none => cases form.arity <;> rfl
  | some label =>
    rw [spoken.labelled label labelled,readOptionalLabel,
      readLabel?_source (spoken.gap label labelled) (spoken.label label labelled)]

theorem readBody?_source {form : Form} {found : Macro} (spoken : Spoken form found) (rest : Text) :
    readBody? form (bodySource found ++ rest) =
      some (⟨found.name,found.term,found.label,none⟩,rest) := by
  have shape : bodySource found ++ rest = ['\x7b','\x7b'] ++ (found.name ++ (['('] ++
      (quote :: found.term ++ quote :: (labelSource found.label ++
        ([')','\x7d','\x7d'] ++ rest))))) := by simp [bodySource]
  have term := readQuoted?_eq_some_iff.mpr (⟨rfl,spoken.term⟩ :
    quote :: found.term ++ quote :: (labelSource found.label ++ ([')','\x7d','\x7d'] ++ rest)) =
      _ ∧ _)
  have label : readOptionalLabel form.arity
      (labelSource found.label ++ ([')','\x7d','\x7d'] ++ rest)) =
        (found.label,[')','\x7d','\x7d'] ++ rest) := readOptionalLabel_source spoken _
  rw [shape,readBody?,after?_append]
  simp only [Option.bind_eq_bind,Option.bind_some,Spelling.read?_source spoken.name]
  rw [after?_append]
  simp only [Option.bind_some,term,if_neg spoken.named]
  rw [label,after?_append]
  rfl

theorem readBody?_spoken {form : Form} {text rest : Text} {found : Macro}
    (read : readBody? form text = some (found,rest)) : Spoken form found := by
  simp only [readBody?,Option.bind_eq_bind,Option.bind_eq_some_iff] at read
  obtain ⟨inside,_,⟨name,afterName⟩,named,arguments,_,⟨term,afterTerm⟩,quotes,read⟩ := read
  split at read
  · cases read
  · rename_i filled
    obtain ⟨closed,_,answer⟩ := Option.bind_eq_some_iff.mp read
    cases answer
    have labels : ∀ label, (readOptionalLabel form.arity afterTerm).1 = some label →
        form.arity = .termAndLabel ∧ (∀ c ∈ label.gap, isBlank c = true) ∧ quote ∉ label.text := by
      intro label same
      cases arity : form.arity with
      | term => simp [arity,readOptionalLabel] at same
      | termAndLabel =>
        rw [arity,readOptionalLabel] at same
        split at same
        · rename_i read
          cases same
          exact ⟨rfl,readLabel?_fits read⟩
        · cases same
    exact ⟨Spelling.read?_accepts named,filled,(readQuoted?_eq_some_iff.mp quotes).2,
      fun label same => (labels label same).1,fun label same => (labels label same).2.1,
      fun label same => (labels label same).2.2⟩

theorem readTag?_eq_some_iff {start text tag rest : Text} :
    readTag? start text = some (tag,rest) ↔
      ∃ name, tag = start ++ name ++ ['>'] ∧ '>' ∉ name ∧ text = tag ++ rest := by
  constructor
  · intro read
    have shape := readTag?_canonical read
    simp only [readTag?,Option.bind_eq_bind,Option.bind_eq_some_iff] at read
    obtain ⟨inside,opened,⟨name,afterName⟩,named,answer⟩ := read
    cases answer
    exact ⟨name,rfl,(closedBy?_canonical named).2,shape⟩
  · rintro ⟨name,rfl,absent,rfl⟩
    rw [readTag?,List.append_assoc,List.append_assoc,after?_append]
    simp only [Option.bind_eq_bind,Option.bind_some]
    rw [List.singleton_append,closedBy?_append rest absent]
    simp

theorem read?_fits {form : Form} {text rest : Text} {found : Macro}
    (read : read? form text = some (found,rest)) : Fits form found := by
  unfold read? at read
  split at read
  · rename_i wrapped
    simp only [readWrapped?,Option.bind_eq_bind,Option.bind_eq_some_iff] at read
    obtain ⟨⟨opening,afterOpening⟩,opened,⟨body,afterBody⟩,inner,⟨closing,afterClosing⟩,closed,
      answer⟩ := read
    cases answer
    have spoken := readBody?_spoken inner
    obtain ⟨o,rfl,openTag,_⟩ := readTag?_eq_some_iff.mp opened
    obtain ⟨c,rfl,closeTag,_⟩ := readTag?_eq_some_iff.mp closed
    exact ⟨⟨spoken.name,spoken.named,spoken.term,spoken.labelled,spoken.gap,spoken.label⟩,
      wrapped,o,c,rfl,openTag,closeTag⟩
  · rename_i bare
    refine ⟨readBody?_spoken read,?_⟩
    rw [(readBody?_canonical read).1]
    exact Bool.eq_false_iff.mpr bare

theorem readWrapped?_source {form : Form} {name term : Text} {label : Option Label}
    (spoken : Spoken form ⟨name,term,label,none⟩) {opening closing : Text}
    (openTag : '>' ∉ opening) (closeTag : '>' ∉ closing) (rest : Text) :
    let tags : Tags := ⟨'<' :: opening ++ ['>'],'<' :: '/' :: closing ++ ['>']⟩
    readWrapped? form (source ⟨name,term,label,some tags⟩ ++ rest) =
      some (⟨name,term,label,some tags⟩,rest) := by
  intro tags
  have first := readTag?_eq_some_iff.mpr ⟨opening,rfl,openTag,
    (rfl : ['<'] ++ opening ++ ['>'] ++ (bodySource ⟨name,term,label,none⟩ ++
      (['<','/'] ++ closing ++ ['>'] ++ rest)) = _)⟩
  have last := readTag?_eq_some_iff.mpr ⟨closing,rfl,closeTag,
    (rfl : ['<','/'] ++ closing ++ ['>'] ++ rest = _)⟩
  have body := readBody?_source spoken (['<','/'] ++ closing ++ ['>'] ++ rest)
  have shape : source ⟨name,term,label,some tags⟩ ++ rest = ['<'] ++ opening ++ ['>'] ++
      (bodySource ⟨name,term,label,none⟩ ++ (['<','/'] ++ closing ++ ['>'] ++ rest)) := by
    simp [source,bodySource,tags]
  rw [readWrapped?,shape,first]
  simp only [Option.bind_eq_bind,Option.bind_some]
  rw [body]
  simp only [Option.bind_some]
  rw [last]
  rfl

theorem read?_source {form : Form} {found : Macro} (fits : Fits form found) (rest : Text) :
    read? form (source found ++ rest) = some (found,rest) := by
  obtain ⟨name,term,label,tags⟩ := found
  have spoken : Spoken form ⟨name,term,label,none⟩ :=
    ⟨fits.name,fits.named,fits.term,fits.labelled,fits.gap,fits.label⟩
  cases tags with
  | none =>
    have bare : form.wrapped = false := fits.tags
    simp only [read?,bare,Bool.false_eq_true,if_false,source]
    exact readBody?_source spoken rest
  | some tags =>
    obtain ⟨wrapped,opening,closing,rfl,openTag,closeTag⟩ := fits.tags
    rw [read?,if_pos wrapped]
    exact readWrapped?_source spoken openTag closeTag rest

-- Reading is exact: it accepts what is spelled by the grammar, and nothing else,
-- whatever stands behind.
theorem read?_eq_some_iff {form : Form} {text rest : Text} {found : Macro} :
    read? form text = some (found,rest) ↔ text = source found ++ rest ∧ Fits form found := by
  constructor
  · intro read
    exact ⟨read?_canonical read,read?_fits read⟩
  · rintro ⟨rfl,fits⟩
    exact read?_source fits rest

end Plainmark.Macro

namespace Plainmark.Form

theorem read?_eq_some_iff {form : Form} {text rest : Text} {found : Macro} :
    form.pattern.read? text = some (found,rest) ↔
      text = Macro.source found ++ rest ∧ Macro.Fits form found := Macro.read?_eq_some_iff

end Plainmark.Form

namespace Plainmark.Link
open Text

theorem read?_eq_some_iff {start text rest : Text} {link : Link} :
    read? start text = some (link,rest) ↔ text = source link ++ rest ∧ link.label ≠ [] ∧
      ']' ∉ link.label ∧ ∃ ending, link.target = start ++ ending ∧ ending ≠ [] ∧ ')' ∉ ending := by
  constructor
  · intro read
    refine ⟨read?_canonical read,?_⟩
    simp only [read?,Option.bind_eq_bind,Option.bind_eq_some_iff] at read
    obtain ⟨inside,_,⟨label,afterLabel⟩,labelled,address,_,remainder,_,⟨ending,afterTarget⟩,
      closed,read⟩ := read
    split at read
    · cases read
    · rename_i filled
      cases read
      exact ⟨fun empty => filled (.inl empty),(closedBy?_canonical labelled).2,ending,rfl,
        fun empty => filled (.inr empty),(closedBy?_canonical closed).2⟩
  · obtain ⟨label,target⟩ := link
    rintro ⟨rfl,named,labelled,ending,rfl,filled,closed⟩
    have shape : source ⟨label,start ++ ending⟩ ++ rest =
        ['['] ++ (label ++ ']' :: (['('] ++ (start ++ (ending ++ ')' :: rest)))) := by simp [source]
    rw [shape,read?,after?_append]
    simp only [Option.bind_eq_bind,Option.bind_some,closedBy?_append _ labelled]
    rw [after?_append]
    simp only [Option.bind_some,after?_append,closedBy?_append _ closed]
    rw [if_neg (by simp [named,filled])]
    rfl

end Plainmark.Link

namespace Plainmark.Image
open Text

theorem read?_eq_some_iff {text rest : Text} {image : Image} :
    read? text = some (image,rest) ↔ text = source image ++ rest ∧ ']' ∉ image.alt ∧
      image.target ≠ [] ∧ ')' ∉ image.target ∧ onWeb image.target = false := by
  constructor
  · intro read
    refine ⟨read?_canonical read,?_⟩
    simp only [read?,Option.bind_eq_bind,Option.bind_eq_some_iff] at read
    obtain ⟨inside,_,⟨alt,afterAlt⟩,described,address,_,⟨target,afterTarget⟩,closed,read⟩ := read
    split at read
    · cases read
    · rename_i filled
      cases read
      exact ⟨(closedBy?_canonical described).2,fun empty => filled (.inl empty),
        (closedBy?_canonical closed).2,Bool.eq_false_iff.mpr fun web => filled (.inr web)⟩
  · obtain ⟨alt,target⟩ := image
    rintro ⟨rfl,described,filled,closed,offWeb⟩
    have shape : source ⟨alt,target⟩ ++ rest =
        ['!','['] ++ (alt ++ ']' :: (['('] ++ (target ++ ')' :: rest))) := by simp [source]
    rw [shape,read?,after?_append]
    simp only [Option.bind_eq_bind,Option.bind_some,closedBy?_append _ described]
    rw [after?_append]
    simp only [Option.bind_some,closedBy?_append _ closed]
    rw [if_neg (by simp only [not_or]; exact ⟨filled,by simpa using offWeb⟩)]
    rfl

end Plainmark.Image
