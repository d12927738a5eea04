import Plainmark.Proofs.Untouched

namespace Plainmark

inductive Segment where
  | plain (text : Text)
  | mention (family : Family) (found : Macro)
  | wrapped (opening closing : Text) (found : Macro)
  | navigation (call : Scaffold.Call)
  | link (label ending : Text)
  | image (image : Image)

end Plainmark

namespace Plainmark.Text

def Free (marks text : Text) : Prop := ∀ c ∈ text, c ∉ marks

theorem Free.absent {marks text : Text} (free : Free marks text) {mark : Char}
    (marked : mark ∈ marks) : mark ∉ text := fun member => free mark member marked

instance (marks text : Text) : Decidable (Free marks text) :=
  inferInstanceAs (Decidable (∀ c ∈ text, c ∉ marks))

theorem Free.mono {few marks text : Text} (free : Free marks text)
    (fewer : ∀ mark ∈ few, mark ∈ marks) : Free few text :=
  fun c member marked => free c member (fewer c marked)

theorem Free.append {marks one two : Text} (first : Free marks one) (second : Free marks two) :
    Free marks (one ++ two) := List.forall_mem_append.mpr ⟨first,second⟩

def starters : Text := "\x7b[<".toList

theorem free_letters {name : Text} (letters : ∀ c ∈ name, c.isAlpha = true) :
    Free starters name := by
  intro c member starter
  have other : ∀ d ∈ starters, d.isAlpha = false := by decide
  have letter := letters c member
  rw [other c starter] at letter
  cases letter

theorem free_blanks {blanks : Text} (blank : ∀ c ∈ blanks, isBlank c = true) :
    Free starters blanks := by
  intro c member starter
  have visible : ∀ d ∈ starters, isBlank d = false := by decide
  have space := blank c member
  rw [visible c starter] at space
  cases space

end Plainmark.Text

namespace Plainmark.Macro
open Text

structure Modest (found : Macro) : Prop where
  term : Free "\"\x7b[]<".toList found.term
  label : ∀ label, found.label = some label → Free "\"\x7b[]<".toList label.text

theorem inner_free {family : Family} {found : Macro} (fits : Fits family.form found)
    (modest : found.Modest) : Free starters (inner found) := by
  have name : Free starters found.name := free_letters (family.name_letters fits.name)
  have term : Free starters found.term := modest.term.mono (by decide)
  have label : Free starters (labelSource found.label) := by
    cases given : found.label with
    | none => decide
    | some label =>
      have text : Free starters label.text := (modest.label label given).mono (by decide)
      have shape : labelSource (some label) = [','] ++ (label.gap ++ ([quote] ++ (label.text ++
          [quote]))) := by simp [labelSource]
      rw [shape]
      exact .append (by decide) (.append (free_blanks (fits.gap label given))
        (.append (by decide) (text.append (by decide))))
  have shape : inner found = found.name ++ (['(',quote] ++ (found.term ++ ([quote] ++
      (labelSource found.label ++ [')','\x7d','\x7d'])))) := by simp [inner]
  rw [shape]
  exact name.append (.append (by decide) (term.append (.append (by decide)
    (label.append (by decide)))))

end Plainmark.Macro

namespace Plainmark.Scaffold
open Text

def Call.items : Call → List Item
  | .bare _ => []
  | .listed _ first more => first :: more

theorem Item.source_free {item : Item} (fits : item.Fits)
    (free : Free "\"'\x7b[<".toList item.content) : Free starters item.source := by
  have mark : Free starters [item.quote] := by
    rcases fits.quote with same | same <;> rw [same] <;> decide
  have shape : item.source = item.before ++ ([item.quote] ++ (item.content ++ ([item.quote] ++
      item.after))) := by simp [Item.source]
  rw [shape]
  exact (free_blanks fits.before).append (mark.append ((free.mono (by decide)).append
    (mark.append (free_blanks fits.after))))

theorem itemsSource_free {items : List Item} (fits : ∀ item ∈ items, item.Fits)
    (free : ∀ item ∈ items, Free "\"'\x7b[<".toList item.content) :
    Free starters (itemsSource items) := by
  intro c member
  obtain ⟨item,listed,inside⟩ := List.mem_flatMap.mp member
  have spelled : Free starters ([','] ++ item.source) :=
    .append (by decide) (Item.source_free (fits item listed) (free item listed))
  exact spelled c inside

def Call.inner (call : Call) : Text := call.name ++ call.argumentsSource ++ ['\x7d','\x7d']

theorem Call.source_inner (call : Call) : call.source = '\x7b' :: '\x7b' :: call.inner := by
  simp [Call.source,Call.inner]

theorem Call.inner_free {call : Call} (fits : call.Fits)
    (free : ∀ item ∈ call.items, Free "\"'\x7b[<".toList item.content) :
    Free starters call.inner := by
  have name : Free starters call.name := free_letters fits.name_letters
  have arguments : Free starters call.argumentsSource := by
    cases call with
    | bare name => exact fun c member => by cases member
    | listed name first more =>
      obtain ⟨head,tail⟩ := List.forall_mem_cons.mp fits.2
      obtain ⟨headFree,tailFree⟩ := List.forall_mem_cons.mp free
      have opened : Free starters (['('] ++ first.source) :=
        .append (by decide) (Item.source_free head headFree)
      exact (opened.append (itemsSource_free tail tailFree)).append (by decide)
  exact (name.append arguments).append (by decide)

end Plainmark.Scaffold

namespace Plainmark.Family
open Text

theorem label_absent (family : Family) {found : Macro} (modest : found.Modest) {mark : Char}
    (marked : mark ∈ "\x7b[]".toList) : mark ∉ family.label found := by
  have argument : mark ∈ "\"\x7b[]<".toList := by
    have all : ∀ c ∈ "\x7b[]".toList, c ∈ "\"\x7b[]<".toList := by decide
    exact all mark marked
  have term : mark ∉ found.term := modest.term.absent argument
  intro member
  rcases mem_label member with shown | inside | code
  · exact not_mem_display term (fun label given => (modest.label label given).absent argument) shown
  · exact term inside
  · have apart : ∀ c ∈ "\x7b[]".toList, c ∉ ['\x60','<','>'] := by decide
    exact apart mark marked code

theorem address_absent (family : Family) {path : Path} {shelf : Shelf} {term : Text}
    (free : Free "\"\x7b[]<".toList term) {mark : Char} (marked : mark ∈ "\x7b[]".toList) :
    mark ∉ family.address path shelf term := by
  have own : ∀ c ∈ "\x7b[]".toList, c ∈ "\"\x7b[]<".toList ∧ isFurniture c = false ∧ ¬ Raised c := by
    decide
  obtain ⟨argument,bare,unraised⟩ := own mark marked
  intro member
  rcases mem_address member with inside | furnished | raised
  · exact free.absent argument inside
  · rw [bare] at furnished
    cases furnished
  · exact unraised raised

theorem address_head (family : Family) (path : Path) (shelf : Shelf) (term : Text) :
    (family.address path shelf term).head? ≠ some '/' := by
  have start : docs.head? = some 'h' := by decide
  have web : ∀ rest : Text, (docs ++ rest).head? ≠ some '/' := by
    intro rest
    rw [List.head?_append,start]
    simp
  cases family with
  | glossary =>
    rw [address,glossaryAddress]
    split
    · cases path.depth with
      | zero => simp [Resource.climb]
      | succ depth => simp [Resource.climb]
    · rw [List.append_assoc]
      exact web _
  | element => rw [address,List.append_assoc]; exact web _
  | css => rw [address,List.append_assoc]; exact web _
  | httpStatus => rw [address,List.append_assoc]; exact web _
  | interface => rw [address,List.append_assoc]; exact web _

end Plainmark.Family

namespace Plainmark.Image
open Text

end Plainmark.Image

namespace Plainmark.Segment
open Text

def Ordinary : Segment → Prop
  | .plain text => Free "\x7b[<!".toList text
  | .mention family found => Macro.Fits family.form found ∧ found.Modest
  | .wrapped opening closing found => Macro.Fits Glossary.bareForm found ∧ found.Modest ∧
      Free "\x7b[<>!".toList opening ∧ Free "\x7b[<>!".toList closing
  | .navigation call => call.Fits ∧ ∀ item ∈ call.items, Free "\"'\x7b[<".toList item.content
  | .link label ending => label ≠ [] ∧ ending ≠ [] ∧ Free "\x7b[]<".toList label ∧
      Free "\x7b[]<)".toList ending
  | .image given => given.target ≠ [] ∧ given.target.head? ≠ some '/' ∧
      Free "\x7b[]<".toList given.alt ∧ Free "\x7b[]<)".toList given.target

def source : Segment → Text
  | .plain text => text
  | .mention _ found => Macro.source found
  | .wrapped opening closing found =>
    '<' :: opening ++ ['>'] ++ Macro.source found ++ '<' :: '/' :: closing ++ ['>']
  | .navigation call => call.source
  | .link label ending => Link.source ⟨label,"/en-US/docs/".toList ++ ending⟩
  | .image given => Image.source given

-- What each form says in plain Markdown. Navigation says nothing.
def rendering (path : Path) (shelf : Shelf) : Segment → Text
  | .plain text => text
  | .mention family found => Link.source ⟨family.label found,family.address path shelf found.term⟩
  | .wrapped opening closing found =>
    '<' :: opening ++ ['>'] ++ "<a href=\"".toList ++
      Family.glossaryAddress path shelf found.term ++ "\">".toList ++ found.display ++
        "</a>".toList ++ '<' :: '/' :: closing ++ ['>']
  | .navigation _ => []
  | .link label ending => Link.source ⟨label,Family.docs ++ ending⟩
  | .image given => Image.moved "assets".toList given

-- Navigation takes blanks and a line break with it from plain text behind it.
def settle : List Segment → List Segment
  | .navigation call :: .plain text :: segments =>
    .navigation call :: .plain (Scaffold.afterTail text) :: settle segments
  | segment :: segments => segment :: settle segments
  | [] => []

def home? : Segment → Option Stage
  | .plain _ => none
  | .mention family _ => some family.stage
  | .wrapped _ _ _ => some .wrappedGlossary
  | .navigation _ => some .scaffold
  | .link _ _ => some .docsLink
  | .image _ => some .image

variable {path : Path} {shelf : Shelf}

def text (path : Path) (shelf : Shelf) (done : List Stage) (segment : Segment) : Text :=
  if segment.home?.any (· ∈ done) then segment.rendering path shelf else segment.source

theorem mention_absent {family : Family} {found : Macro}
    (ordinary : (mention family found).Ordinary) {mark : Char} (marked : mark ∈ "[<".toList) :
    mark ∉ (mention family found).source := by
  have starter : ∀ c ∈ "[<".toList, c ∈ starters ∧ c ≠ '\x7b' := by decide
  obtain ⟨begins,other⟩ := starter mark marked
  rw [source,Macro.source_inner (Macro.untagged ordinary.1 family.bare)]
  simp [other,(Macro.inner_free ordinary.1 ordinary.2).absent begins]

end Plainmark.Segment
