import Plainmark.Scan
import Plainmark.Text.Blank

namespace Plainmark.Scaffold
open Text

def bareNames : List Text := ["LearnSidebar".toList,"GlossarySidebar".toList]

def listedNames : List Text :=
  "QuicklinksWithSubPages".toList :: menus ++ menus.map ("LearnSidebar".toList ++ ·)
where
  menus := ["PreviousMenuNext".toList,"PreviousMenu".toList,"NextMenuPrevious".toList]

inductive Expecting where
  | item
  | closing (quote : Char)
  | separator

-- What follows an argument list, read from behind its opening parenthesis. An
-- item may hold the other kind of quote, and blanks stand around items only.
def afterArguments? : Expecting → Text → Option Text
  | _,[] => none
  | .item,c :: text =>
    if isBlank c then afterArguments? .item text
    else if c = '"' ∨ c = '\'' then afterArguments? (.closing c) text
    else none
  | .closing quote,c :: text =>
    if c = quote then afterArguments? .separator text
    else afterArguments? (.closing quote) text
  | .separator,c :: text =>
    if isBlank c then afterArguments? .separator text
    else if c = ',' then afterArguments? .item text
    else if c = ')' then some text
    else none

-- What follows the name of a navigation macro and its arguments. Names consist
-- of letters alone, so the run of letters is the name.
def afterCall? (text : Text) : Option Text :=
  let name := text.takeWhile Char.isAlpha
  let rest := text.dropWhile Char.isAlpha
  if name ∈ bareNames then some rest
  else if name ∈ listedNames then (after? ['('] rest).bind (afterArguments? .item)
  else none

def afterTail (text : Text) : Text :=
  match text.dropWhile fun c => c == ' ' || c == '\t' with
  | '\n' :: rest => rest
  | '\r' :: '\n' :: rest => rest
  | rest => rest

def rest? (text : Text) : Option Text := do
  let inside ← after? ['\x7b','\x7b'] text
  let called ← afterCall? inside
  let closed ← after? ['\x7d','\x7d'] called
  return afterTail closed

def read? (text : Text) : Option (Text × Text) :=
  (rest? text).map fun rest => (text.take (text.length - rest.length),rest)

theorem after?_suffix {start text rest : Text} (found : after? start text = some rest) :
    rest <:+ text := ⟨start,(after?_canonical found).symm⟩

theorem afterArguments?_suffix {state : Expecting} {text rest : Text}
    (found : afterArguments? state text = some rest) : rest <:+ text := by
  induction text generalizing state with
  | nil => cases state <;> cases found
  | cons c text ih =>
    have later : ∀ next, afterArguments? next text = some rest → rest <:+ c :: text :=
      fun _ read => (ih read).trans (List.suffix_cons _ _)
    cases state with
    | item =>
      simp only [afterArguments?] at found
      split at found
      · exact later _ found
      · split at found
        · exact later _ found
        · cases found
    | closing quote =>
      simp only [afterArguments?] at found
      split at found
      · exact later _ found
      · exact later _ found
    | separator =>
      simp only [afterArguments?] at found
      split at found
      · exact later _ found
      · split at found
        · exact later _ found
        · split at found
          · cases found
            exact List.suffix_cons _ _
          · cases found

theorem afterCall?_suffix {text rest : Text} (found : afterCall? text = some rest) :
    rest <:+ text := by
  simp only [afterCall?] at found
  split at found
  · cases found
    exact List.dropWhile_suffix _
  · split at found
    · obtain ⟨inside,opened,closed⟩ := Option.bind_eq_some_iff.mp found
      exact ((afterArguments?_suffix closed).trans (after?_suffix opened)).trans
        (List.dropWhile_suffix _)
    · cases found

theorem afterTail_suffix (text : Text) : afterTail text <:+ text := by
  have spaces := List.dropWhile_suffix (l := text) fun c => c == ' ' || c == '\t'
  unfold afterTail
  split
  · rename_i rest shape
    rw [shape] at spaces
    exact (List.suffix_cons _ _).trans spaces
  · rename_i rest shape
    rw [shape] at spaces
    exact ((List.suffix_cons _ _).trans (List.suffix_cons _ _)).trans spaces
  · exact spaces

theorem rest?_shorter {text rest : Text} (found : rest? text = some rest) :
    rest <:+ text ∧ rest.length < text.length := by
  simp only [rest?,Option.bind_eq_bind,Option.bind_eq_some_iff] at found
  obtain ⟨inside,opened,called,named,closed,closing,answer⟩ := found
  cases answer
  have step := ((afterTail_suffix closed).trans (after?_suffix closing)).trans
    (afterCall?_suffix named)
  have braces := congrArg List.length (after?_canonical opened)
  refine ⟨step.trans (after?_suffix opened),?_⟩
  have bound := step.length_le
  simp at braces
  omega

theorem read?_canonical {text found rest : Text} (read : read? text = some (found,rest)) :
    text = found ++ rest := by
  obtain ⟨tail,ended,pair⟩ := Option.map_eq_some_iff.mp read
  cases pair
  exact (List.suffix_iff_eq_append.mp (rest?_shorter ended).1).symm

theorem read?_visible {text found rest : Text} (read : read? text = some (found,rest)) :
    found ≠ [] := by
  have same := read?_canonical read
  obtain ⟨tail,ended,pair⟩ := Option.map_eq_some_iff.mp read
  cases pair
  intro empty
  have shorter := (rest?_shorter ended).2
  rw [empty] at same
  rw [List.nil_append] at same
  rw [← same] at shorter
  exact Nat.lt_irrefl _ shorter

def pattern : Pattern Text where
  read? := read?
  source := id
  canonical := read?_canonical
  visible := read?_visible

end Plainmark.Scaffold
