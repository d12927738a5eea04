import Plainmark.Scan
import Plainmark.Text.Blank

namespace Plainmark

abbrev Spelling := List (List Char)

inductive Arity where
  | term
  | termAndLabel
deriving DecidableEq

-- What the macros of one family look like. A wrapped macro stands directly
-- between a tag and a closing tag, and both belong to it.
structure Form where
  name : Spelling
  arity : Arity := .termAndLabel
  wrapped : Bool := false

structure Label where
  gap : Text
  text : Text
deriving DecidableEq

structure Tags where
  opening : Text
  closing : Text
deriving DecidableEq

structure Macro where
  name : Text
  term : Text
  label : Option Label
  tags : Option Tags
deriving DecidableEq

end Plainmark

namespace Plainmark.Spelling

def word (text : Text) : Spelling := text.map fun c => [c]

def anyCase (text : Text) : Spelling := text.map fun c => [c.toLower,c.toUpper]

def read? : Spelling → Text → Option (Text × Text)
  | [],text => some ([],text)
  | _ :: _,[] => none
  | accepted :: spelling,c :: text =>
    if c ∈ accepted then (read? spelling text).map fun found => (c :: found.1,found.2) else none

theorem read?_canonical {spelling : Spelling} {text name rest : Text}
    (found : read? spelling text = some (name,rest)) : text = name ++ rest := by
  induction spelling generalizing text name with
  | nil => simp_all [read?]
  | cons accepted spelling ih =>
    cases text with
    | nil => simp [read?] at found
    | cons c text =>
      simp only [read?] at found
      split at found
      · obtain ⟨inner,read,pair⟩ := Option.map_eq_some_iff.mp found
        cases pair
        rw [ih read,List.cons_append]
      · cases found

end Plainmark.Spelling

namespace Plainmark.Arity

def ofInt? (count : Int) : Option Arity :=
  if count = 1 then some .term else if count = 2 then some .termAndLabel else none

def refusal (count : Int) : Text := "Unsupported macro arity: ".toList ++ Text.signed count

end Plainmark.Arity

namespace Plainmark.Macro
open Text

def quote : Char := '"'

def display (found : Macro) : Text :=
  match found.label with
  | some label => if label.text = [] then found.term else label.text
  | none => found.term

def labelSource : Option Label → Text
  | none => []
  | some label => ',' :: label.gap ++ quote :: label.text ++ [quote]

def bodySource (found : Macro) : Text :=
  ['\x7b','\x7b'] ++ found.name ++ ['(',quote] ++ found.term ++ [quote] ++
    labelSource found.label ++ [')','\x7d','\x7d']

def source (found : Macro) : Text :=
  match found.tags with
  | none => bodySource found
  | some tags => tags.opening ++ bodySource found ++ tags.closing

def readQuoted? : Text → Option (Text × Text)
  | [] => none
  | c :: text => if c = quote then closedBy? quote text else none

def readLabel? : Text → Option (Label × Text)
  | [] => none
  | c :: text =>
    if c = ',' then
      (readQuoted? (text.dropWhile isBlank)).map fun found =>
        (⟨text.takeWhile isBlank,found.1⟩,found.2)
    else none

-- A label that cannot be read is no label; what stands there instead then has
-- to close the macro.
def readOptionalLabel : Arity → Text → Option Label × Text
  | .term,text => (none,text)
  | .termAndLabel,text =>
    match readLabel? text with
    | some (label,rest) => (some label,rest)
    | none => (none,text)

def readBody? (form : Form) (text : Text) : Option (Macro × Text) := do
  let inside ← after? ['\x7b','\x7b'] text
  let (name,rest) ← form.name.read? inside
  let arguments ← after? ['('] rest
  let (term,rest) ← readQuoted? arguments
  if term = [] then none
  else
    let (label,rest) := readOptionalLabel form.arity rest
    let rest ← after? [')','\x7d','\x7d'] rest
    return (⟨name,term,label,none⟩,rest)

def readTag? (start text : Text) : Option (Text × Text) := do
  let inside ← after? start text
  let (name,rest) ← closedBy? '>' inside
  return (start ++ name ++ ['>'],rest)

def readWrapped? (form : Form) (text : Text) : Option (Macro × Text) := do
  let (opening,rest) ← readTag? ['<'] text
  let (body,rest) ← readBody? form rest
  let (closing,rest) ← readTag? ['<','/'] rest
  return (⟨body.name,body.term,body.label,some ⟨opening,closing⟩⟩,rest)

def read? (form : Form) (text : Text) : Option (Macro × Text) :=
  if form.wrapped then readWrapped? form text else readBody? form text

theorem readQuoted?_canonical {text run rest : Text} (found : readQuoted? text = some (run,rest)) :
    text = quote :: run ++ quote :: rest := by
  cases text with
  | nil => simp [readQuoted?] at found
  | cons c text =>
    simp only [readQuoted?] at found
    split at found
    · rw [(closedBy?_canonical found).1]
      simp_all
    · cases found

theorem readLabel?_canonical {text rest : Text} {label : Label}
    (found : readLabel? text = some (label,rest)) : text = labelSource (some label) ++ rest := by
  cases text with
  | nil => simp [readLabel?] at found
  | cons c text =>
    simp only [readLabel?] at found
    split at found
    · obtain ⟨inner,read,pair⟩ := Option.map_eq_some_iff.mp found
      cases pair
      have shape := readQuoted?_canonical read
      have halves := List.takeWhile_append_dropWhile (p := isBlank) (l := text)
      rw [shape] at halves
      subst c
      simp only [labelSource,List.cons_append,List.append_assoc] at halves ⊢
      rw [List.nil_append,halves]
    · cases found

theorem readOptionalLabel_canonical (arity : Arity) (text : Text) :
    text = labelSource (readOptionalLabel arity text).1 ++ (readOptionalLabel arity text).2 := by
  cases arity with
  | term => rfl
  | termAndLabel =>
    simp only [readOptionalLabel]
    split
    · rename_i read
      exact readLabel?_canonical read
    · rfl

theorem readBody?_canonical {form : Form} {text rest : Text} {found : Macro}
    (read : readBody? form text = some (found,rest)) :
    found.tags = none ∧ text = bodySource found ++ rest := by
  simp only [readBody?,Option.bind_eq_bind,Option.bind_eq_some_iff] at read
  obtain ⟨inside,opened,⟨name,afterName⟩,named,arguments,parenthesis,⟨term,afterTerm⟩,quotes,read⟩ := read
  split at read
  · cases read
  · obtain ⟨closed,closing,answer⟩ := Option.bind_eq_some_iff.mp read
    cases answer
    refine ⟨rfl,?_⟩
    dsimp only at named parenthesis quotes closing ⊢
    have labelled := readOptionalLabel_canonical form.arity afterTerm
    rw [after?_canonical closing] at labelled
    rw [after?_canonical opened,Spelling.read?_canonical named,after?_canonical parenthesis,
      readQuoted?_canonical quotes]
    simpa [bodySource] using labelled

theorem readTag?_canonical {start text tag rest : Text}
    (read : readTag? start text = some (tag,rest)) : text = tag ++ rest := by
  simp only [readTag?,Option.bind_eq_bind,Option.bind_eq_some_iff] at read
  obtain ⟨inside,opened,⟨name,afterName⟩,named,answer⟩ := read
  cases answer
  rw [after?_canonical opened,(closedBy?_canonical named).1]
  simp

theorem read?_canonical {form : Form} {text rest : Text} {found : Macro}
    (read : read? form text = some (found,rest)) : text = source found ++ rest := by
  unfold read? at read
  split at read
  · simp only [readWrapped?,Option.bind_eq_bind,Option.bind_eq_some_iff] at read
    obtain ⟨⟨opening,afterOpening⟩,opened,⟨body,afterBody⟩,inner,⟨closing,afterClosing⟩,closed,answer⟩ := read
    cases answer
    dsimp only at inner closed ⊢
    rw [readTag?_canonical opened,(readBody?_canonical inner).2,readTag?_canonical closed]
    simp [source,bodySource]
  · obtain ⟨bare,shape⟩ := readBody?_canonical read
    rw [shape]
    simp [source,bare]

theorem source_ne_nil (found : Macro) : source found ≠ [] := by
  unfold source
  split <;> simp [bodySource]

end Plainmark.Macro

namespace Plainmark.Form
open Text

def pattern (form : Form) : Pattern Macro where
  read? := Macro.read? form
  source := Macro.source
  canonical := Macro.read?_canonical
  visible := fun _ => Macro.source_ne_nil _

end Plainmark.Form
