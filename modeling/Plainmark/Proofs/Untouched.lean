import Plainmark.Proofs.Navigation
import Plainmark.Proofs.Renderings

namespace Plainmark.Spelling

end Plainmark.Spelling

namespace Plainmark.Substitution
variable {pattern : Pattern α} {render : α → Logged}

end Plainmark.Substitution

namespace Plainmark.Macro
open Text Substitution

theorem read?_begins {form : Form} (bare : form.wrapped = false) (c : Char) (text : Text)
    (other : c ≠ '\x7b') : read? form (c :: text) = none := by
  simp [read?,bare,readBody?,after?,other]

theorem read?_doubles {form : Form} (bare : form.wrapped = false) (c : Char) (text : Text)
    (other : c ≠ '\x7b') : read? form ('\x7b' :: c :: text) = none := by
  simp [read?,bare,readBody?,after?,other]

theorem read?_begins_wrapped {form : Form} (wrapped : form.wrapped = true) (c : Char) (text : Text)
    (other : c ≠ '<') : read? form (c :: text) = none := by
  simp [read?,wrapped,readWrapped?,readTag?,after?,other]

def inner (found : Macro) : Text :=
  found.name ++ '(' :: quote :: found.term ++ quote :: labelSource found.label ++
    [')','\x7d','\x7d']

theorem source_inner {found : Macro} (untagged : found.tags = none) :
    source found = '\x7b' :: '\x7b' :: inner found := by
  simp [source,bodySource,inner,untagged]

end Plainmark.Macro

namespace Plainmark.Family

theorem name_letters (family : Family) {name : Text} (accepts : family.form.name.Accepts name) :
    ∀ c ∈ name, c.isAlpha = true := by
  have letters : ∀ accepted ∈ family.form.name, ∀ c ∈ accepted, c.isAlpha = true := by
    cases family <;> decide
  unfold Spelling.Accepts at accepts
  generalize family.form.name = spelling at accepts letters
  induction accepts with
  | nil => exact fun c member => by cases member
  | cons allowed _ ih =>
    obtain ⟨here,later⟩ := List.forall_mem_cons.mp letters
    exact List.forall_mem_cons.mpr ⟨here _ allowed,ih later⟩

end Plainmark.Family

namespace Plainmark.Scaffold
open Text Substitution

theorem read?_begins (c : Char) (text : Text) (other : c ≠ '\x7b') :
    pattern.read? (c :: text) = none := by
  simp [pattern,read?,rest?,after?,other]

theorem read?_doubles (c : Char) (text : Text) (other : c ≠ '\x7b') :
    pattern.read? ('\x7b' :: c :: text) = none := by
  simp [pattern,read?,rest?,after?,other]

theorem Call.Fits.listed {call : Call} (fits : call.Fits) :
    call.name ∈ bareNames ++ listedNames := by
  cases call with
  | bare name => exact List.mem_append_left _ fits
  | listed name first more => exact List.mem_append_right _ fits.1

end Plainmark.Scaffold

namespace Plainmark.Link
open Text Substitution

theorem read?_begins (start : Text) (c : Char) (text : Text) (other : c ≠ '[') :
    (pattern start).read? (c :: text) = none := by
  simp [pattern,read?,after?,other]

theorem source_eq (label target : Text) :
    source ⟨label,target⟩ = '[' :: (label ++ ']' :: '(' :: target ++ [')']) := by
  simp [source]

theorem source_absent {label target : Text} {mark : Char} (labelled : mark ∉ label)
    (targeted : mark ∉ target) (other : mark ∉ "[]()".toList) : mark ∉ source ⟨label,target⟩ := by
  intro member
  rw [source_eq] at member
  simp only [List.mem_cons,List.mem_append,List.not_mem_nil,or_false] at member
  have brackets : mark ≠ '[' ∧ mark ≠ ']' ∧ mark ≠ '(' ∧ mark ≠ ')' := by simpa using other
  tauto

theorem elsewhere_stands {render : Link → Logged} {start label target : Text}
    (rooted : start.head? = some '/') (labelled : '[' ∉ label) (closed : ']' ∉ label)
    (opened : '[' ∉ target) (elsewhere : target.head? ≠ some '/') :
    Rewrites (pattern start) render (source ⟨label,target⟩) (source ⟨label,target⟩) := by
  have body : '[' ∉ label ++ ']' :: '(' :: target ++ [')'] := by simp [labelled,opened]
  have refused : ∀ rest, after? start (target ++ ')' :: rest) = none := by
    intro rest
    obtain ⟨ending,rfl⟩ := List.head?_eq_some_iff.mp rooted
    cases target with
    | nil => simp [after?]
    | cons c target =>
      have other : c ≠ '/' := fun same => elsewhere (by simp [same])
      simp [after?,other]
  have unread : ∀ rest, (pattern start).read?
      ('[' :: (label ++ ']' :: '(' :: target ++ [')'] ++ rest)) = none := by
    intro rest
    have shape : '[' :: (label ++ ']' :: '(' :: target ++ [')'] ++ rest) =
        ['['] ++ (label ++ ']' :: (['('] ++ (target ++ ')' :: rest))) := by simp
    show read? _ _ = none
    rw [shape,read?,after?_append]
    simp only [Option.bind_eq_bind,Option.bind_some,closedBy?_append _ closed]
    rw [after?_append]
    simp [refused]
  rw [source_eq]
  exact .keep unread (.without (read?_begins _) body)

end Plainmark.Link

namespace Plainmark.Image
open Text Substitution

theorem read?_begins (c : Char) (text : Text) (other : c ≠ '!') :
    pattern.read? (c :: text) = none := by
  simp [pattern,read?,after?,other]

theorem read?_doubles (c : Char) (text : Text) (other : c ≠ '[') :
    pattern.read? ('!' :: c :: text) = none := by
  simp [pattern,read?,after?,other]

-- A block without a bracket holds no image, and begins none unless it ends in
-- an exclamation mark.
theorem unbracketed_stands {render : Image → Logged} {block : Text} (unbracketed : '[' ∉ block)
    (ends : block.getLast? ≠ some '!') : Rewrites pattern render block block := by
  induction block with
  | nil => exact .nil
  | cons c block ih =>
    simp only [List.mem_cons,not_or] at unbracketed
    cases block with
    | nil => exact .keep (fun rest => read?_begins c _ (by simpa using ends)) .nil
    | cons d block =>
      refine .keep (fun rest => ?_) (ih unbracketed.2 (by simpa using ends))
      by_cases mark : c = '!'
      · simp only [List.mem_cons,not_or] at unbracketed
        rw [mark]
        exact read?_doubles d _ (Ne.symm unbracketed.2.1)
      · exact read?_begins c _ mark

theorem link_stands {render : Image → Logged} {label target : Text} (labelled : '[' ∉ label)
    (opened : '[' ∉ target) :
    Rewrites pattern render (Link.source ⟨label,target⟩) (Link.source ⟨label,target⟩) := by
  have body : '[' ∉ label ++ ']' :: '(' :: target ++ [')'] := by simp [labelled,opened]
  have ends : (label ++ ']' :: '(' :: target ++ [')']).getLast? ≠ some '!' := by
    rw [List.getLast?_concat]
    decide
  rw [Link.source_eq]
  exact .keep (fun rest => read?_begins '[' _ (by decide)) (unbracketed_stands body ends)

theorem hasScheme_of_onWeb {target : Text} (web : onWeb target = true) :
    hasScheme target = true := by
  simp only [onWeb,Bool.or_eq_true,Option.isSome_iff_exists] at web
  rcases web with ⟨rest,found⟩ | ⟨rest,found⟩
  · rw [after?_canonical found]
    rfl
  · rw [after?_canonical found]
    rfl

-- An image becomes the one in the folder, also where it is on the web and no
-- occurrence at all.
theorem source_rewrites (folder : Text) {image : Image} (labelled : '[' ∉ image.alt)
    (described : ']' ∉ image.alt) (opened : '[' ∉ image.target) (filled : image.target ≠ [])
    (closed : ')' ∉ image.target) :
    Rewrites pattern (fun image => ⟨moved folder image,[]⟩) (source image) (moved folder image) := by
  by_cases web : onWeb image.target = true
  · have settles : settled folder image.target = true := by
      simp [settled,anchored,hasScheme_of_onWeb web]
    have unread : ∀ rest, pattern.read?
        ('!' :: (Link.source ⟨image.alt,image.target⟩ ++ rest)) = none := by
      intro rest
      have shape : '!' :: (Link.source ⟨image.alt,image.target⟩ ++ rest) =
          ['!','['] ++ (image.alt ++ ']' :: (['('] ++ (image.target ++ ')' :: rest))) := by
        simp [Link.source_eq]
      show read? _ = none
      rw [shape,read?,after?_append]
      simp only [Option.bind_eq_bind,Option.bind_some,closedBy?_append _ described]
      rw [after?_append]
      simp only [Option.bind_some,closedBy?_append _ closed]
      rw [if_pos (.inr web)]
    rw [moved,if_pos settles]
    exact .keep unread (link_stands labelled opened)
  · exact .occurrence fun rest => read?_eq_some_iff.mpr
      ⟨rfl,described,filled,closed,Bool.eq_false_iff.mpr web⟩

end Plainmark.Image
