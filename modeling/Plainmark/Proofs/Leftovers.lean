import Plainmark.Proofs.Convergence
import Plainmark.Proofs.Spans
import Plainmark.Proofs.Untouched

namespace Plainmark.Macro
open Text

def lead (name : Text) : Text := ['\x7b','\x7b'] ++ name ++ ['(']

def tail (found : Macro) : Text := labelSource found.label ++ [')','\x7d','\x7d']

theorem bodySource_eq (found : Macro) :
    bodySource found = lead found.name ++ '"' :: (found.term ++ '"' :: tail found) := by
  simp [bodySource,lead,tail,quote]

theorem tail_head (found : Macro) :
    ∃ c rest, tail found = c :: rest ∧ (c = ',' ∨ c = ')') := by
  unfold tail
  cases found.label with
  | none => exact ⟨_,_,rfl,.inr rfl⟩
  | some label => exact ⟨_,_,rfl,.inl rfl⟩

theorem bracket_quoted {form : Form} {found : Macro} (spoken : Spoken form found)
    (letters : '>' ∉ lead found.name) {front behind : Text}
    (bracket : bodySource found = front ++ '>' :: behind) :
    ∃ inner c rest, behind = inner ++ '"' :: c :: rest ∧ '"' ∉ inner ∧ (c = ',' ∨ c = ')') := by
  rw [bodySource_eq] at bracket
  obtain ⟨ahead,_,bracket⟩ := mark_behind _ bracket letters
  obtain ⟨ahead,_,bracket⟩ := mark_behind ['"'] bracket (by decide)
  rcases mark_cases _ bracket with ⟨inner,term,rfl⟩ | ⟨ahead,_,bracket⟩
  · obtain ⟨c,rest,head,closes⟩ := tail_head found
    refine ⟨inner,c,rest,by rw [head],fun member => spoken.term ?_,closes⟩
    rw [term]
    exact List.mem_append_right _ (List.mem_cons_of_mem _ member)
  · cases labelled : found.label with
    | none =>
      have inside : '>' ∈ '"' :: tail found := by rw [bracket]; simp
      rw [tail,labelled] at inside
      exact absurd inside (by decide)
    | some label =>
      have shape : '"' :: tail found = ('"' :: ',' :: label.gap ++ ['"']) ++
          (label.text ++ '"' :: [')','\x7d','\x7d']) := by
        simp [tail,labelled,labelSource,quote]
      have blank : '>' ∉ '"' :: ',' :: label.gap ++ ['"'] := by
        have visible : '>' ∉ label.gap := fun member =>
          absurd (spoken.gap label labelled _ member) (by decide)
        simp [visible]
      rw [shape] at bracket
      obtain ⟨ahead,_,bracket⟩ := mark_behind _ bracket blank
      rcases mark_cases _ bracket with ⟨inner,text,rfl⟩ | ⟨ahead,_,bracket⟩
      · refine ⟨inner,')',['\x7d','\x7d'],rfl,fun member => spoken.label label labelled ?_,.inr rfl⟩
        rw [text]
        exact List.mem_append_right _ (List.mem_cons_of_mem _ member)
      · have inside : '>' ∈ '"' :: [')','\x7d','\x7d'] := by rw [bracket]; simp
        exact absurd inside (by decide)

end Plainmark.Macro

namespace Plainmark.Glossary
open Text Substitution

-- A macro with a closing tag behind it. Any tag in front makes it a wrapped one.
def Wrappable (text : Text) : Prop :=
  ∃ body closing rest, Macro.Spoken wrappedForm body ∧ '>' ∉ closing ∧
    text = Macro.bodySource body ++ '<' :: '/' :: (closing ++ '>' :: rest)

def Closes (text : Text) : Prop :=
  ∃ tag rest, text = tag ++ '>' :: rest ∧ '>' ∉ tag ∧ Wrappable rest

def HoldsWrapped (text : Text) : Prop :=
  ∃ found, Macro.Fits wrappedForm found ∧ Macro.source found <:+: text

def Open (text : Text) : Prop := ∃ before tag, text = before ++ '<' :: tag ∧ '>' ∉ tag

theorem lead_absent {name : Text} (accepts : wrappedForm.name.Accepts name) {c : Char}
    (other : c.isAlpha = false) (mark : c ≠ '\x7b' ∧ c ≠ '(') : c ∉ Macro.lead name := by
  intro member
  simp only [Macro.lead,List.mem_append,List.mem_cons,List.not_mem_nil,or_false] at member
  rcases member with ((brace | brace) | letter) | parenthesis
  · exact mark.1 brace
  · exact mark.1 brace
  · have alpha := Family.name_letters .glossary accepts c letter
    rw [other] at alpha
    cases alpha
  · exact mark.2 parenthesis

theorem wrappable_quoted {front rest : Text} (unquoted : '"' ∉ front)
    (wrappable : Wrappable (front ++ '"' :: rest)) :
    ∃ name, wrappedForm.name.Accepts name ∧ front = Macro.lead name := by
  obtain ⟨body,closing,behind,spoken,_,shape⟩ := wrappable
  rw [Macro.bodySource_eq,List.append_assoc,List.cons_append] at shape
  refine ⟨body.name,spoken.name,(mark_unique shape unquoted ?_).1⟩
  exact lead_absent spoken.name rfl (by decide)

theorem not_wrappable (front : Text) {rest : Text} (unquoted : '"' ∉ front) :
    ¬ Wrappable (front ++ '<' :: rest) := by
  rintro ⟨body,closing,behind,spoken,_,shape⟩
  rw [Macro.bodySource_eq,List.append_assoc,List.cons_append] at shape
  obtain ⟨inner,rfl,quoted⟩ := mark_behind _ shape.symm (lead_absent spoken.name rfl (by decide))
  cases inner with
  | nil => cases quoted
  | cons c inner =>
    have head := (List.cons.inj quoted).1
    exact unquoted (by simp [← head])

theorem wrappable_front {front run rest : Text} {c : Char} (unquoted : '"' ∉ run)
    (parenthesis : c ≠ ')') (comma : c ≠ ',')
    (wrappable : Wrappable (front ++ '>' :: (run ++ '"' :: c :: rest))) (other : Text) :
    Wrappable (front ++ '>' :: other) := by
  obtain ⟨body,closing,behind,spoken,closed,shape⟩ := wrappable
  rcases mark_cases _ shape.symm with ⟨inner,within,after⟩ | ⟨inner,ahead,within⟩
  · exfalso
    obtain ⟨quoted,d,tail,rfl,absent,ends⟩ :=
      Macro.bracket_quoted spoken (lead_absent spoken.name rfl (by decide)) within
    rw [List.append_assoc,List.cons_append,List.cons_append] at after
    obtain ⟨_,next⟩ := mark_unique after unquoted absent
    cases next
    rcases ends with rfl | rfl
    · exact comma rfl
    · exact parenthesis rfl
  · have tagged : '>' ∉ '<' :: '/' :: closing := by simp [closed]
    rcases mark_cases ('<' :: '/' :: closing) within with
      ⟨_,inTag,_⟩ | ⟨more,rfl,later⟩
    · exact absurd (by simp [inTag]) tagged
    · cases more with
      | nil => exact ⟨body,closing,other,spoken,closed,by simp [ahead]⟩
      | cons d more =>
        cases later
        exact ⟨body,closing,more ++ '>' :: other,spoken,closed,by simp [ahead]⟩

theorem wrappable_of_closes (tag : Text) {rest : Text} (closes : Closes (tag ++ '>' :: rest))
    (absent : '>' ∉ tag) : Wrappable rest := by
  obtain ⟨other,behind,shape,clear,wrappable⟩ := closes
  rwa [(mark_unique shape absent clear).2]

theorem closes_append {block text : Text} (closes : Closes (block ++ text)) :
    (∃ tag behind, block = tag ++ '>' :: behind ∧ '>' ∉ tag ∧ Wrappable (behind ++ text)) ∨
      ('>' ∉ block ∧ Closes text) := by
  obtain ⟨tag,rest,shape,absent,wrappable⟩ := closes
  rcases mark_cases _ shape with ⟨inner,within,rfl⟩ | ⟨inner,rfl,later⟩
  · exact .inl ⟨tag,inner,within,absent,wrappable⟩
  · rw [List.mem_append,not_or] at absent
    exact .inr ⟨absent.1,inner,rest,later,absent.2,wrappable⟩

theorem spelled_iff {text : Text} :
    (∃ found rest, Macro.Fits wrappedForm found ∧ text = Macro.source found ++ rest) ↔
      ∃ inner, text = '<' :: inner ∧ Closes inner := by
  constructor
  · rintro ⟨found,rest,fits,rfl⟩
    obtain ⟨opening,closing,tagged,openTag,closeTag⟩ := fits.tagged rfl
    exact ⟨opening ++ '>' :: (Macro.bodySource found ++ '<' :: '/' :: (closing ++ '>' :: rest)),
      by simp [Macro.source,tagged],opening,_,rfl,openTag,found,closing,rest,fits.toSpoken,
      closeTag,rfl⟩
  · rintro ⟨_,rfl,opening,_,rfl,openTag,body,closing,rest,spoken,closeTag,rfl⟩
    obtain ⟨name,term,label,_⟩ := body
    refine ⟨⟨name,term,label,some ⟨'<' :: opening ++ ['>'],'<' :: '/' :: closing ++ ['>']⟩⟩,rest,
      ⟨⟨spoken.name,spoken.named,spoken.term,spoken.labelled,spoken.gap,spoken.label⟩,
        rfl,opening,closing,rfl,openTag,closeTag⟩,?_⟩
    simp [Macro.source,Macro.bodySource]

theorem holds_iff {text : Text} :
    HoldsWrapped text ↔ ∃ front inner, text = front ++ '<' :: inner ∧ Closes inner := by
  constructor
  · rintro ⟨found,fits,front,behind,rfl⟩
    obtain ⟨inner,shape,closes⟩ := spelled_iff.mp ⟨found,behind,fits,rfl⟩
    exact ⟨front,inner,by rw [List.append_assoc,shape],closes⟩
  · rintro ⟨front,inner,rfl,closes⟩
    obtain ⟨found,behind,fits,shape⟩ := spelled_iff.mpr ⟨inner,rfl,closes⟩
    exact ⟨found,fits,front,behind,by rw [shape,List.append_assoc]⟩

theorem HoldsWrapped.after {text : Text} (holds : HoldsWrapped text) (front : Text) :
    HoldsWrapped (front ++ text) := by
  obtain ⟨found,fits,inner⟩ := holds
  exact ⟨found,fits,inner.trans (List.suffix_append front text).isInfix⟩

theorem holds_cons {c : Char} {text : Text} (holds : HoldsWrapped (c :: text)) :
    (c = '<' ∧ Closes text) ∨ HoldsWrapped text := by
  obtain ⟨front,inner,shape,closes⟩ := holds_iff.mp holds
  cases front with
  | nil =>
    cases shape
    exact .inl ⟨rfl,closes⟩
  | cons d front =>
    cases shape
    exact .inr (holds_iff.mpr ⟨front,inner,rfl,closes⟩)

theorem holds_append {block text : Text} (holds : HoldsWrapped (block ++ text)) :
    (∃ ahead behind, block = ahead ++ '>' :: behind ∧ Open ahead ∧ Wrappable (behind ++ text)) ∨
      (Open block ∧ Closes text) ∨ HoldsWrapped text := by
  induction block with
  | nil => exact .inr (.inr holds)
  | cons c block ih =>
    rcases holds_cons holds with ⟨rfl,closes⟩ | later
    · rcases closes_append closes with ⟨tag,behind,rfl,absent,wrappable⟩ | ⟨absent,closes⟩
      · exact .inl ⟨'<' :: tag,behind,rfl,⟨[],tag,rfl,absent⟩,wrappable⟩
      · exact .inr (.inl ⟨⟨[],block,rfl,absent⟩,closes⟩)
    · rcases ih later with ⟨ahead,behind,rfl,⟨before,tag,rfl,absent⟩,wrappable⟩ |
        ⟨⟨before,tag,rfl,absent⟩,closes⟩ | whole
      · exact .inl ⟨c :: (before ++ '<' :: tag),behind,rfl,⟨c :: before,tag,rfl,absent⟩,wrappable⟩
      · exact .inr (.inl ⟨⟨c :: before,tag,rfl,absent⟩,closes⟩)
      · exact .inr (.inr whole)

theorem holds_of_open {ahead rest : Text} (begun : Open ahead) (wrappable : Wrappable rest) :
    HoldsWrapped (ahead ++ '>' :: rest) := by
  obtain ⟨before,tag,rfl,absent⟩ := begun
  refine holds_iff.mpr ⟨before,tag ++ '>' :: rest,?_,tag,rest,rfl,absent,wrappable⟩
  rw [List.append_assoc,List.cons_append]

theorem not_open_concat {front : Text} : ¬ Open (front ++ ['>']) := by
  rintro ⟨before,tag,shape,absent⟩
  rcases List.eq_nil_or_concat tag with rfl | ⟨init,c,rfl⟩
  · have last := congrArg List.getLast? shape
    simp at last
  · rw [List.concat_eq_append] at shape absent
    have last := congrArg List.getLast? shape
    rw [← List.cons_append,← List.append_assoc] at last
    simp only [List.getLast?_concat,Option.some.injEq] at last
    exact absent (by simp [← last])

theorem holds_tag {tag rest : Text} (absent : '>' ∉ tag)
    (holds : HoldsWrapped ((tag ++ ['>']) ++ rest)) : Wrappable rest ∨ HoldsWrapped rest := by
  rcases holds_append holds with ⟨ahead,behind,shape,_,wrappable⟩ | ⟨begun,_⟩ | later
  · obtain ⟨inner,rfl,ending⟩ := mark_behind _ shape absent
    cases inner with
    | nil =>
      obtain ⟨_,rfl⟩ := List.cons.inj ending
      exact .inl wrappable
    | cons c inner => simp at ending
  · exact absurd begun not_open_concat
  · exact .inr later

def unwrapped (path : Path) (shelf : Shelf) (text : Text) : Text :=
  (Stage.wrappedGlossary.apply (.standard path shelf) text).text

def rendered (path : Path) (shelf : Shelf) (piece : Piece Macro) : Text :=
  replacePiece (anchor (.standard path shelf)) piece

theorem unwrapped_eq (path : Path) (shelf : Shelf) (text : Text) :
    unwrapped path shelf text = (wrappedForm.pattern.scan text).flatMap (rendered path shelf) := rfl

theorem unwrapped_kept {path : Path} {shelf : Shelf} {c : Char} {text : Text}
    (read : wrappedForm.pattern.read? (c :: text) = none) :
    unwrapped path shelf (c :: text) = c :: unwrapped path shelf text :=
  replaceAll_kept read

-- How a macro can stay a wrapped one in a text that the stage has passed. Its
-- opening tag is the closing tag of the macro before it, which was taken with
-- that one; or the address of an anchor ends in the front of a macro, and the
-- quotation mark that closes the address opens the term.
inductive Leaves (path : Path) (shelf : Shelf) (found : Macro) (after : Text) : Prop where
  | neighbour (wrappable : Wrappable after)
  | reopened (ahead name : Text) (tags : Tags) (accepts : wrappedForm.name.Accepts name)
      (tagged : found.tags = some tags)
      (address : (target (.standard path shelf) found.term).text =
        ahead ++ '>' :: Macro.lead name)
      (begun : Open ("<a href=\"".toList ++ ahead))
      (wrappable : Wrappable (Macro.lead name ++ "\">".toList ++ found.display ++
        "</a>".toList ++ tags.closing ++ after))

def LeavesSome (path : Path) (shelf : Shelf) (text : Text) : Prop :=
  ∃ front found behind, wrappedForm.pattern.scan text = front ++ .found found :: behind ∧
    Leaves path shelf found (behind.flatMap (rendered path shelf))

theorem anchor_shape (path : Path) (shelf : Shelf) {found : Macro}
    (fits : Macro.Fits wrappedForm found) : ∃ opening closing,
      found.tags = some ⟨'<' :: opening ++ ['>'],'<' :: '/' :: closing ++ ['>']⟩ ∧ '>' ∉ opening ∧
      Macro.source found = ('<' :: opening ++ ['>']) ++ Macro.bodySource found ++
        ('<' :: '/' :: closing ++ ['>']) ∧ '>' ∉ closing ∧
      (anchor (.standard path shelf) found).text = ('<' :: opening ++ ['>']) ++
        ("<a href=\"".toList ++ Family.glossaryAddress path shelf found.term ++ "\">".toList ++
          found.display ++ "</a>".toList) ++ ('<' :: '/' :: closing ++ ['>']) := by
  obtain ⟨opening,closing,tagged,openTag,closeTag⟩ := fits.tagged rfl
  refine ⟨opening,closing,tagged,openTag,?_,closeTag,?_⟩
  · simp [Macro.source,tagged]
  · simp [anchor,tagged,Family.target_standard]

theorem address_head (path : Path) (shelf : Shelf) (term : Text) : ∃ c rest,
    Family.glossaryAddress path shelf term = c :: rest ∧ c ≠ ')' ∧ c ≠ ',' := by
  unfold Family.glossaryAddress
  split
  · cases path.depth with
    | zero => exact ⟨'r',_,rfl,by decide,by decide⟩
    | succ depth => exact ⟨'.',_,rfl,by decide,by decide⟩
  · exact ⟨'h',_,rfl,by decide,by decide⟩

theorem unwrapped_cases (path : Path) (shelf : Shelf) (text : Text) :
    unwrapped path shelf text = text ∨ ∃ front before c after,
      text = front ++ '>' :: before ∧ c ≠ ')' ∧ c ≠ ',' ∧
      unwrapped path shelf text = front ++ '>' :: ("<a href=".toList ++ '"' :: c :: after) := by
  induction text using wrappedForm.pattern.scan_induction with
  | empty => exact .inl replaceAll_nil
  | found text found rest read ih =>
    obtain ⟨rfl,fits⟩ := Form.read?_eq_some_iff.mp read
    obtain ⟨opening,closing,_,_,source,_,shape⟩ := anchor_shape path shelf fits
    obtain ⟨c,address,head,parenthesis,comma⟩ := address_head path shelf found.term
    have whole : unwrapped path shelf (Macro.source found ++ rest) =
        (anchor (.standard path shelf) found).text ++ unwrapped path shelf rest :=
      replaceAll_found read
    refine .inr ⟨'<' :: opening,Macro.bodySource found ++ ('<' :: '/' :: closing ++ ['>']) ++ rest,
      c,address ++ "\">".toList ++ found.display ++ "</a>".toList ++
        ('<' :: '/' :: closing ++ ['>']) ++ unwrapped path shelf rest,?_,parenthesis,comma,?_⟩
    · rw [source]
      simp
    · rw [whole,shape,head]
      simp
  | kept c text read ih =>
    rw [unwrapped_kept read]
    rcases ih with same | ⟨front,before,d,after,rfl,parenthesis,comma,shape⟩
    · exact .inl (by rw [same])
    · exact .inr ⟨c :: front,before,d,after,rfl,parenthesis,comma,by rw [shape]; rfl⟩

theorem wrappable_of_unwrapped {path : Path} {shelf : Shelf} {text : Text}
    (wrappable : Wrappable (unwrapped path shelf text)) : Wrappable text := by
  rcases unwrapped_cases path shelf text with same | ⟨front,before,c,after,rfl,one,two,shape⟩
  · rwa [same] at wrappable
  · rw [shape] at wrappable
    exact wrappable_front (by decide) one two wrappable before

theorem closes_of_unwrapped {path : Path} {shelf : Shelf} {text : Text}
    (closes : Closes (unwrapped path shelf text)) : Closes text := by
  induction text using wrappedForm.pattern.scan_induction with
  | empty =>
    obtain ⟨tag,rest,shape,_⟩ := closes
    simp [unwrapped_eq] at shape
  | found text found rest read _ =>
    obtain ⟨shape,fits⟩ := Form.read?_eq_some_iff.mp read
    obtain ⟨inner,rfl,tag,behind,rfl,absent,wrappable⟩ := spelled_iff.mp ⟨found,rest,fits,shape⟩
    exact ⟨'<' :: tag,behind,rfl,by simp [absent],wrappable⟩
  | kept c text read ih =>
    rw [unwrapped_kept read] at closes
    obtain ⟨tag,rest,shape,absent,wrappable⟩ := closes
    cases tag with
    | nil =>
      obtain ⟨rfl,rfl⟩ := List.cons.inj shape
      exact ⟨[],text,rfl,by simp,wrappable_of_unwrapped wrappable⟩
    | cons d tag =>
      obtain ⟨rfl,later⟩ := List.cons.inj shape
      rw [List.mem_cons,not_or] at absent
      obtain ⟨other,behind,rfl,clear,found⟩ := ih ⟨tag,rest,later,absent.2,wrappable⟩
      exact ⟨c :: other,behind,rfl,by simp [clear,absent.1],found⟩

theorem holds_address {address shown rest : Text} (unquoted : '"' ∉ address)
    (display : '"' ∉ shown)
    (holds : HoldsWrapped (("<a href=\"".toList ++ address) ++
      ('"' :: '>' :: (shown ++ '<' :: rest)))) :
    (∃ ahead name, wrappedForm.name.Accepts name ∧ address = ahead ++ '>' :: Macro.lead name ∧
      Open ("<a href=\"".toList ++ ahead) ∧
        Wrappable (Macro.lead name ++ '"' :: '>' :: (shown ++ '<' :: rest))) ∨
      HoldsWrapped ('"' :: '>' :: (shown ++ '<' :: rest)) := by
  rcases holds_append holds with ⟨ahead,behind,within,begun,wrappable⟩ | ⟨_,closes⟩ | later
  · obtain ⟨inner,rfl,link⟩ := mark_behind _ within (by decide)
    have apart : '"' ∉ behind := fun member => unquoted (by simp [link,member])
    obtain ⟨name,accepts,rfl⟩ := wrappable_quoted apart wrappable
    exact .inl ⟨inner,name,accepts,link,begun,wrappable⟩
  · exact absurd (wrappable_of_closes ['"'] closes (by decide)) (not_wrappable shown display)
  · exact .inr later

theorem holds_shown {shown rest : Text} (display : '"' ∉ shown)
    (holds : HoldsWrapped ('"' :: ('>' :: (shown ++ "</a>".toList)) ++ '<' :: rest)) :
    HoldsWrapped ('<' :: rest) := by
  rcases holds_append holds with ⟨ahead,behind,within,_,wrappable⟩ | ⟨begun,_⟩ | later
  · obtain ⟨inner,rfl,shape⟩ := mark_behind ['"'] within (by decide)
    have unquoted : '"' ∉ '>' :: (shown ++ "</a>".toList) := by simp [display]
    rw [shape] at unquoted
    refine absurd wrappable (not_wrappable _ fun member => unquoted ?_)
    exact List.mem_append_right _ (List.mem_cons_of_mem _ member)
  · have ending : '"' :: ('>' :: (shown ++ "</a>".toList)) =
        '"' :: ('>' :: (shown ++ "</a".toList)) ++ ['>'] := by simp
    rw [ending] at begun
    exact absurd begun not_open_concat
  · exact later

theorem holds_anchor {path : Path} {shelf : Shelf} {found : Macro} {after : Text}
    (fits : Macro.Fits wrappedForm found)
    (holds : HoldsWrapped ((anchor (.standard path shelf) found).text ++ after)) :
    Leaves path shelf found after ∨ HoldsWrapped after := by
  obtain ⟨opening,closing,tagged,openTag,_,closeTag,shape⟩ := anchor_shape path shelf fits
  have address : '"' ∉ Family.glossaryAddress path shelf found.term :=
    Family.not_mem_glossaryAddress (by decide) fits.term
  have display : '"' ∉ found.display := Family.not_mem_display fits.term fits.label
  have whole : (anchor (.standard path shelf) found).text ++ after = ('<' :: opening ++ ['>']) ++
      ([] ++ '<' :: ("a href=\"".toList ++ Family.glossaryAddress path shelf found.term ++
        '"' :: '>' :: (found.display ++ '<' :: ("/a>".toList ++
          (('<' :: '/' :: closing ++ ['>']) ++ after))))) := by
    rw [shape]
    simp
  rw [whole] at holds
  rcases holds_tag (by simp [openTag]) holds with wrappable | behindTag
  · exact absurd wrappable (not_wrappable [] List.not_mem_nil)
  rcases holds_address address display behindTag with
    ⟨ahead,name,accepts,link,begun,wrappable⟩ | behindAddress
  · rw [← Family.target_standard] at link
    exact .inl (.reopened ahead name _ accepts tagged link begun (by simpa using wrappable))
  have behindAnchor : HoldsWrapped (('<' :: '/' :: closing ++ ['>']) ++ after) :=
    holds_shown display (by simpa using behindAddress)
  rcases holds_tag (by simp [closeTag]) behindAnchor with wrappable | later
  · exact .inl (.neighbour wrappable)
  · exact .inr later

theorem Leaves.holds {path : Path} {shelf : Shelf} {found : Macro} {after : Text}
    (fits : Macro.Fits wrappedForm found) (leaves : Leaves path shelf found after) :
    HoldsWrapped ((anchor (.standard path shelf) found).text ++ after) := by
  obtain ⟨opening,closing,tagged,_,_,closeTag,shape⟩ := anchor_shape path shelf fits
  cases leaves with
  | neighbour wrappable =>
    have tail : (anchor (.standard path shelf) found).text ++ after = ('<' :: opening ++ ['>'] ++
        ("<a href=\"".toList ++ Family.glossaryAddress path shelf found.term ++ "\">".toList ++
          found.display ++ "</a>".toList)) ++ (('<' :: '/' :: closing) ++ '>' :: after) := by
      rw [shape]
      simp
    rw [tail]
    exact (holds_of_open ⟨[],'/' :: closing,rfl,by simp [closeTag]⟩ wrappable).after _
  | reopened ahead name tags accepts given address begun wrappable =>
    rw [tagged,Option.some.injEq] at given
    subst given
    rw [Family.target_standard] at address
    have tail : (anchor (.standard path shelf) found).text ++ after = ('<' :: opening ++ ['>']) ++
        (("<a href=\"".toList ++ ahead) ++ '>' :: (Macro.lead name ++ "\">".toList ++
          found.display ++ "</a>".toList ++ ('<' :: '/' :: closing ++ ['>']) ++ after)) := by
      rw [shape,address]
      simp
    rw [tail]
    exact (holds_of_open begun wrappable).after _

theorem leavesSome_of_holds {path : Path} {shelf : Shelf} {text : Text}
    (holds : HoldsWrapped (unwrapped path shelf text)) : LeavesSome path shelf text := by
  induction text using wrappedForm.pattern.scan_induction with
  | empty =>
    obtain ⟨front,inner,shape,_⟩ := holds_iff.mp holds
    simp [unwrapped_eq] at shape
  | found text found rest read ih =>
    have whole : unwrapped path shelf text =
        (anchor (.standard path shelf) found).text ++ unwrapped path shelf rest :=
      replaceAll_found read
    rw [whole] at holds
    rcases holds_anchor (Form.read?_eq_some_iff.mp read).2 holds with leaves | later
    · exact ⟨[],found,_,wrappedForm.pattern.scan_found read,leaves⟩
    · obtain ⟨front,other,behind,scan,leaves⟩ := ih later
      refine ⟨.found found :: front,other,behind,?_,leaves⟩
      rw [wrappedForm.pattern.scan_found read,scan,List.cons_append]
  | kept c text read ih =>
    rw [unwrapped_kept read] at holds
    rcases holds_cons holds with ⟨rfl,closes⟩ | later
    · obtain ⟨found,rest,fits,shape⟩ := spelled_iff.mpr ⟨text,rfl,closes_of_unwrapped closes⟩
      have readable : wrappedForm.pattern.read? ('<' :: text) = some (found,rest) :=
        Form.read?_eq_some_iff.mpr ⟨shape,fits⟩
      rw [readable] at read
      cases read
    · obtain ⟨front,other,behind,scan,leaves⟩ := ih later
      refine ⟨.kept c :: front,other,behind,?_,leaves⟩
      rw [wrappedForm.pattern.scan_kept read,scan,List.cons_append]

theorem holds_of_leavesSome {path : Path} {shelf : Shelf} {text : Text}
    (some : LeavesSome path shelf text) : HoldsWrapped (unwrapped path shelf text) := by
  obtain ⟨front,found,behind,scan,leaves⟩ := some
  have met : .found found ∈ wrappedForm.pattern.scan text := by rw [scan]; simp
  rw [unwrapped_eq,scan,List.flatMap_append,List.flatMap_cons]
  exact (leaves.holds (Form.fits_of_found met).1).after _

def Enclosed (front behind : Text) : Prop :=
  (∃ ahead, Open ahead ∧ front = ahead ++ ['>']) ∧
    ∃ closing rest, '>' ∉ closing ∧ behind = '<' :: '/' :: (closing ++ '>' :: rest)

theorem Enclosed.holds {front behind : Text} {found : Macro} (enclosed : Enclosed front behind)
    (fits : Macro.Fits bareForm found) : HoldsWrapped (front ++ Macro.source found ++ behind) := by
  obtain ⟨⟨ahead,begun,rfl⟩,closing,rest,closed,rfl⟩ := enclosed
  have spoken : Macro.Spoken wrappedForm found :=
    ⟨fits.name,fits.named,fits.term,fits.labelled,fits.gap,fits.label⟩
  have source : Macro.source found = Macro.bodySource found := by
    simp [Macro.source,Macro.untagged fits rfl]
  have shape : (ahead ++ ['>']) ++ Macro.source found ++ '<' :: '/' :: (closing ++ '>' :: rest) =
      ahead ++ '>' :: (Macro.bodySource found ++ '<' :: '/' :: (closing ++ '>' :: rest)) := by
    rw [source]
    simp
  rw [shape]
  exact holds_of_open begun ⟨found,closing,rest,spoken,closed,rfl⟩

-- The stage of wrapped macros leaves one exactly where neighbours share a tag
-- or an address ends in the front of a macro; and nowhere else does the next
-- stage put Markdown between tags.
theorem wrapped_left_iff (path : Path) (shelf : Shelf) (text : Text) :
    (HoldsWrapped (unwrapped path shelf text) ↔ LeavesSome path shelf text) ∧
      ((∃ front found behind, bareForm.pattern.scan (unwrapped path shelf text) =
          front ++ .found found :: behind ∧
        Enclosed (front.flatMap (Piece.source bareForm.pattern))
          (behind.flatMap (Piece.source bareForm.pattern))) → LeavesSome path shelf text) := by
  refine ⟨⟨leavesSome_of_holds,holds_of_leavesSome⟩,?_⟩
  rintro ⟨front,found,behind,scan,enclosed⟩
  have met : .found found ∈ bareForm.pattern.scan (unwrapped path shelf text) := by
    rw [scan]
    simp
  have whole := bareForm.pattern.scan_source (unwrapped path shelf text)
  rw [scan,List.flatMap_append,List.flatMap_cons,← List.append_assoc] at whole
  refine leavesSome_of_holds ?_
  rw [← whole]
  exact enclosed.holds (Form.fits_of_found met).1

theorem shared_tag_keeps_macro :
    let left := unwrapped ⟨.relative,["index.md".toList]⟩ (fun _ _ => false)
      "<p><b>\x7b\x7bGlossary(\"a\")\x7d\x7d</b>\x7b\x7bGlossary(\"b\")\x7d\x7d</p>".toList
    HoldsWrapped left ∧
      (Stage.glossary.apply (.standard ⟨.relative,["index.md".toList]⟩ (fun _ _ => false)) left).text =
        ("<p><b><a href=\"https://developer.mozilla.org/en-US/docs/Glossary/A\">a</a></b>" ++
          "[b](https://developer.mozilla.org/en-US/docs/Glossary/B)</p>").toList := by
  refine ⟨⟨⟨"Glossary".toList,"b".toList,none,some ⟨"</b>".toList,"</p>".toList⟩⟩,?_,
    "<p><b><a href=\"https://developer.mozilla.org/en-US/docs/Glossary/A\">a</a>".toList,[],?_⟩,?_⟩
  · have read : Macro.read? wrappedForm "</b>\x7b\x7bGlossary(\"b\")\x7d\x7d</p>".toList =
        some (⟨"Glossary".toList,"b".toList,none,some ⟨"</b>".toList,"</p>".toList⟩⟩,[]) := by decide
    exact Macro.read?_fits read
  · decide +kernel
  · decide +kernel

-- The other way: the address of a published page ends in the front of a macro,
-- and its closing quotation mark opens a term.
example : unwrapped ⟨.relative,["index.md".toList]⟩ (fun _ _ => false)
    ("<b>\x7b\x7bGlossary(\"<x>\x7b\x7bGlossary(\")\x7d\x7d</b>".toList ++
      "\")\x7d\x7d</c>".toList) =
    "<b><a href=\"https://developer.mozilla.org/en-US/docs/Glossary/".toList ++
      "<x>\x7b\x7bGlossary(\"><x>\x7b\x7bGlossary(</a></b>\")\x7d\x7d</c>".toList := by
  decide +kernel

end Plainmark.Glossary
