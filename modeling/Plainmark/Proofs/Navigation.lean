import Mathlib.Data.List.Basic
import Mathlib.Data.List.TakeWhile
import Mathlib.Tactic.Tauto
import Plainmark.Scaffold

namespace Plainmark.Scaffold
open Text

structure Item where
  before : Text
  quote : Char
  content : Text
  after : Text
deriving DecidableEq

inductive Call where
  | bare (name : Text)
  | listed (name : Text) (first : Item) (more : List Item)
deriving DecidableEq

structure Item.Fits (item : Item) : Prop where
  before : ∀ c ∈ item.before, isBlank c = true
  quote : item.quote = '"' ∨ item.quote = '\''
  content : item.quote ∉ item.content
  after : ∀ c ∈ item.after, isBlank c = true

def Item.source (item : Item) : Text :=
  item.before ++ item.quote :: item.content ++ item.quote :: item.after

def itemsSource (items : List Item) : Text := items.flatMap fun item => ',' :: item.source

def Call.Fits : Call → Prop
  | .bare name => name ∈ bareNames
  | .listed name first more => name ∈ listedNames ∧ ∀ item ∈ first :: more, item.Fits

def Call.argumentsSource : Call → Text
  | .bare _ => []
  | .listed _ first more => '(' :: first.source ++ itemsSource more ++ [')']

def Call.name : Call → Text
  | .bare name => name
  | .listed name _ _ => name

def Call.source (call : Call) : Text :=
  ['\x7b','\x7b'] ++ call.name ++ call.argumentsSource ++ ['\x7d','\x7d']

-- What a state of the argument reader has still to see: the rest of the item it
-- is in, blanks, further items, and the closing parenthesis.
def Remains (rest : Text) : Expecting → Text → Prop
  | .item,text => ∃ first more, (∀ item ∈ first :: more, item.Fits) ∧
      text = first.source ++ itemsSource more ++ ')' :: rest
  | .closing quote,text => ∃ content blanks more, quote ∉ content ∧
      (∀ c ∈ blanks, isBlank c = true) ∧ (∀ item ∈ more, item.Fits) ∧
      text = content ++ quote :: (blanks ++ itemsSource more ++ ')' :: rest)
  | .separator,text => ∃ blanks more, (∀ c ∈ blanks, isBlank c = true) ∧
      (∀ item ∈ more, item.Fits) ∧ text = blanks ++ itemsSource more ++ ')' :: rest

theorem afterArguments?_remains {state : Expecting} {text rest : Text}
    (read : afterArguments? state text = some rest) : Remains rest state text := by
  induction text generalizing state with
  | nil => cases state <;> cases read
  | cons c text ih =>
    cases state with
    | item =>
      simp only [afterArguments?] at read
      split at read
      · rename_i blank
        obtain ⟨first,more,fits,rfl⟩ := ih read
        obtain ⟨head,tail⟩ := List.forall_mem_cons.mp fits
        refine ⟨{first with before := c :: first.before},more,?_,by simp [Item.source]⟩
        refine List.forall_mem_cons.mpr ⟨⟨?_,head.quote,head.content,head.after⟩,tail⟩
        exact List.forall_mem_cons.mpr ⟨blank,head.before⟩
      · split at read
        · rename_i quote
          obtain ⟨content,blanks,more,unquoted,blank,fits,rfl⟩ := ih read
          refine ⟨⟨[],c,content,blanks⟩,more,?_,by simp [Item.source]⟩
          exact List.forall_mem_cons.mpr ⟨⟨by simp,quote,unquoted,blank⟩,fits⟩
        · cases read
    | closing quote =>
      simp only [afterArguments?] at read
      split at read
      · rename_i same
        obtain ⟨blanks,more,blank,fits,rfl⟩ := ih read
        exact ⟨[],blanks,more,by simp,blank,fits,by rw [same]; rfl⟩
      · rename_i other
        obtain ⟨content,blanks,more,unquoted,blank,fits,rfl⟩ := ih read
        refine ⟨c :: content,blanks,more,?_,blank,fits,rfl⟩
        exact List.not_mem_cons_of_ne_of_not_mem (Ne.symm other) unquoted
    | separator =>
      simp only [afterArguments?] at read
      split at read
      · rename_i space
        obtain ⟨blanks,more,blank,fits,rfl⟩ := ih read
        exact ⟨c :: blanks,more,List.forall_mem_cons.mpr ⟨space,blank⟩,fits,rfl⟩
      · split at read
        · rename_i comma
          obtain ⟨first,more,fits,rfl⟩ := ih read
          exact ⟨[],first :: more,by simp,fits,by rw [comma]; simp [itemsSource]⟩
        · split at read
          · rename_i parenthesis
            cases read
            exact ⟨[],[],by simp,by simp,by rw [parenthesis]; rfl⟩
          · cases read

theorem afterArguments?_blanks {blanks : Text} (blank : ∀ c ∈ blanks, isBlank c = true)
    (text : Text) : afterArguments? .item (blanks ++ text) = afterArguments? .item text ∧
      afterArguments? .separator (blanks ++ text) = afterArguments? .separator text := by
  induction blanks with
  | nil => exact ⟨rfl,rfl⟩
  | cons c blanks ih =>
    obtain ⟨space,others⟩ := List.forall_mem_cons.mp blank
    simpa [afterArguments?,space] using ih others

theorem afterArguments?_content {quote : Char} {content : Text} (unquoted : quote ∉ content)
    (text : Text) : afterArguments? (.closing quote) (content ++ quote :: text) =
      afterArguments? .separator text := by
  induction content with
  | nil => simp [afterArguments?]
  | cons c content ih =>
    simp only [List.mem_cons,not_or] at unquoted
    simpa [afterArguments?,Ne.symm unquoted.1] using ih unquoted.2

theorem afterArguments?_item {item : Item} (fits : item.Fits) (text : Text) :
    afterArguments? .item (item.source ++ text) = afterArguments? .separator text := by
  have shape : item.source ++ text = item.before ++
      (item.quote :: (item.content ++ item.quote :: (item.after ++ text))) := by
    simp [Item.source]
  have visible : isBlank item.quote = false := by
    rcases fits.quote with same | same <;> rw [same] <;> decide
  rw [shape,(afterArguments?_blanks fits.before _).1,afterArguments?,if_neg (by simp [visible]),
    if_pos fits.quote,afterArguments?_content fits.content,(afterArguments?_blanks fits.after _).2]

theorem afterArguments?_items {items : List Item} (fits : ∀ item ∈ items, item.Fits)
    (rest : Text) : afterArguments? .separator (itemsSource items ++ ')' :: rest) = some rest := by
  have comma : isBlank ',' = false := by decide
  have parenthesis : isBlank ')' = false := by decide
  induction items with
  | nil => simp [itemsSource,afterArguments?,parenthesis]
  | cons item items ih =>
    obtain ⟨head,tail⟩ := List.forall_mem_cons.mp fits
    have shape : itemsSource (item :: items) ++ ')' :: rest =
        ',' :: (item.source ++ (itemsSource items ++ ')' :: rest)) := by simp [itemsSource]
    rw [shape,afterArguments?,if_neg (by simp [comma]),if_pos rfl,afterArguments?_item head,
      ih tail]

theorem afterCall?_name {name text : Text} (letters : ∀ c ∈ name, c.isAlpha = true)
    (ended : ∀ c ∈ text.head?, c.isAlpha = false) : afterCall? (name ++ text) =
      if name ∈ bareNames then some text
      else if name ∈ listedNames then (after? ['('] text).bind (afterArguments? .item)
      else none := by
  have run : text.takeWhile Char.isAlpha = [] ∧ text.dropWhile Char.isAlpha = text := by
    cases text with
    | nil => exact ⟨rfl,rfl⟩
    | cons c text => simp [ended c rfl]
  rw [afterCall?,List.takeWhile_append_of_pos letters,List.dropWhile_append_of_pos letters,run.1,
    run.2,List.append_nil]

theorem names_letters : ∀ name ∈ bareNames ++ listedNames, ∀ c ∈ name, c.isAlpha = true := by
  decide

theorem names_apart : ∀ name ∈ listedNames, name ∉ bareNames := by decide

theorem Call.Fits.name_letters {call : Call} (fits : call.Fits) :
    ∀ c ∈ call.name, c.isAlpha = true := by
  cases call with
  | bare name => exact names_letters name (List.mem_append_left _ fits)
  | listed name first more => exact names_letters name (List.mem_append_right _ fits.1)

theorem afterCall?_source {call : Call} (fits : call.Fits) (rest : Text) :
    afterCall? (call.name ++ (call.argumentsSource ++ '\x7d' :: rest)) = some ('\x7d' :: rest) := by
  have letters := fits.name_letters
  cases call with
  | bare name =>
    have bare : name ∈ bareNames := fits
    rw [afterCall?_name letters (by simp [Call.argumentsSource]),Call.name,if_pos bare]
    rfl
  | listed name first more =>
    obtain ⟨head,tail⟩ := List.forall_mem_cons.mp fits.2
    have shape : (Call.listed name first more).argumentsSource ++ '\x7d' :: rest =
        ['('] ++ (first.source ++ (itemsSource more ++ ')' :: '\x7d' :: rest)) := by
      simp [Call.argumentsSource]
    rw [afterCall?_name letters (by simp [Call.argumentsSource]),Call.name,
      if_neg (names_apart name fits.1),if_pos fits.1,shape,after?_append,Option.bind_some,
      afterArguments?_item head,afterArguments?_items tail]

theorem afterCall?_shape {text rest : Text} (called : afterCall? text = some rest) :
    ∃ call : Call, call.Fits ∧ text = call.name ++ (call.argumentsSource ++ rest) := by
  have halves := List.takeWhile_append_dropWhile (p := Char.isAlpha) (l := text)
  simp only [afterCall?] at called
  split at called
  · rename_i bare
    cases called
    exact ⟨.bare _,bare,halves.symm⟩
  · split at called
    · rename_i listed
      obtain ⟨inside,opened,arguments⟩ := Option.bind_eq_some_iff.mp called
      obtain ⟨first,more,fits,rfl⟩ := afterArguments?_remains arguments
      rw [after?_canonical opened] at halves
      refine ⟨.listed _ first more,⟨listed,fits⟩,?_⟩
      simpa [Call.name,Call.argumentsSource] using halves.symm
    · cases called

theorem rest?_eq_some_iff {text rest : Text} : rest? text = some rest ↔
    ∃ (call : Call) (behind : Text), call.Fits ∧ text = call.source ++ behind ∧
      rest = afterTail behind := by
  constructor
  · intro read
    simp only [rest?,Option.bind_eq_bind,Option.bind_eq_some_iff] at read
    obtain ⟨inside,opened,called,named,behind,closed,answer⟩ := read
    cases answer
    obtain ⟨call,fits,shape⟩ := afterCall?_shape named
    refine ⟨call,behind,fits,?_,rfl⟩
    rw [after?_canonical opened,shape,after?_canonical closed]
    simp [Call.source]
  · rintro ⟨call,behind,fits,rfl,rfl⟩
    have shape : call.source ++ behind = ['\x7b','\x7b'] ++ (call.name ++
        (call.argumentsSource ++ '\x7d' :: ('\x7d' :: behind))) := by simp [Call.source]
    rw [rest?,shape,after?_append]
    simp only [Option.bind_eq_bind,Option.bind_some,afterCall?_source fits]
    rw [show '\x7d' :: '\x7d' :: behind = ['\x7d','\x7d'] ++ behind from rfl,after?_append]
    rfl

theorem read?_eq_none_iff {text : Text} : read? text = none ↔
    ∀ call : Call, call.Fits → ∀ behind, text ≠ call.source ++ behind := by
  rw [read?,Option.map_eq_none_iff,Option.eq_none_iff_forall_ne_some]
  constructor
  · rintro silent call fits behind rfl
    exact silent _ (rest?_eq_some_iff.mpr ⟨call,behind,fits,rfl,rfl⟩)
  · intro silent rest read
    obtain ⟨call,behind,fits,shape,_⟩ := rest?_eq_some_iff.mp read
    exact silent call fits behind shape

-- What goes with a navigation macro: every space and tab behind it, and one line
-- break where one stands behind these. A carriage return alone is none.
structure Tail (spaces ending behind : Text) : Prop where
  spaces : ∀ c ∈ spaces, c = ' ' ∨ c = '\t'
  all : ∀ c ∈ (ending ++ behind).head?, c ≠ ' ' ∧ c ≠ '\t'
  ending : ending = ['\n'] ∨ ending = ['\r','\n'] ∨
    ending = [] ∧ ¬ ['\n'] <+: behind ∧ ¬ ['\r','\n'] <+: behind

theorem afterTail_tail (text : Text) : ∃ spaces ending,
    text = spaces ++ ending ++ afterTail text ∧ Tail spaces ending (afterTail text) := by
  have halves := List.takeWhile_append_dropWhile (p := fun c => c == ' ' || c == '\t') (l := text)
  have run : ∀ c ∈ text.takeWhile fun c => c == ' ' || c == '\t', c = ' ' ∨ c = '\t' := by
    intro c member
    simpa using List.mem_takeWhile_imp member
  have whole := List.head?_dropWhile_not (fun c => c == ' ' || c == '\t') text
  unfold afterTail
  split
  · rename_i rest shape
    rw [shape] at halves
    exact ⟨_,['\n'],by simpa using halves.symm,run,by simp,.inl rfl⟩
  · rename_i rest shape
    rw [shape] at halves
    exact ⟨_,['\r','\n'],by simpa using halves.symm,run,by simp,.inr (.inl rfl)⟩
  · rename_i line carriage
    refine ⟨_,[],by simp,run,fun c head => ?_,.inr (.inr ⟨rfl,?_,?_⟩)⟩
    · have same : (text.dropWhile fun c => c == ' ' || c == '\t').head? = some c := head
      rw [same] at whole
      simp only [Bool.or_eq_false_iff,beq_eq_false_iff_ne] at whole
      exact whole
    · rintro ⟨rest,shape⟩
      exact line rest shape.symm
    · rintro ⟨rest,shape⟩
      exact carriage rest shape.symm

theorem read?_tail {text found rest : Text} (read : read? text = some (found,rest)) :
    ∃ (call : Call) (spaces ending : Text), call.Fits ∧ found = call.source ++ (spaces ++ ending) ∧
      Tail spaces ending rest := by
  have whole := read?_canonical read
  obtain ⟨behind,ended,pair⟩ := Option.map_eq_some_iff.mp read
  obtain rfl : behind = rest := congrArg Prod.snd pair
  obtain ⟨call,after,fits,rfl,same⟩ := rest?_eq_some_iff.mp ended
  obtain ⟨spaces,ending,shape,tail⟩ := afterTail_tail after
  rw [← same] at shape tail
  rw [shape,← List.append_assoc] at whole
  exact ⟨call,spaces,ending,fits,(List.append_cancel_right whole).symm,tail⟩

end Plainmark.Scaffold
