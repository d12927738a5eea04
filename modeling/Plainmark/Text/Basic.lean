namespace Plainmark

-- A text is the list of its code points. Positions and lengths count them, so
-- nothing here depends on an encoding.
abbrev Text := List Char

end Plainmark

namespace Plainmark.Text

instance lawfulText : LawfulBEq Text := inferInstance

-- What holds of every character of a text is checked on those characters, and
-- not on all there are.
instance (priority := high) decidableAll (property : Char → Prop) [DecidablePred property]
    (text : List Char) : Decidable (∀ c ∈ text, property c) := List.decidableBAll property text

def inRanges (ranges : List (Nat × Nat)) (c : Char) : Bool :=
  ranges.any fun range => range.1 ≤ c.toNat && c.toNat ≤ range.2

def after? : Text → Text → Option Text
  | [],text => some text
  | _ :: _,[] => none
  | s :: start,c :: text => if c = s then after? start text else none

theorem after?_canonical {start text rest : Text} (found : after? start text = some rest) :
    text = start ++ rest := by
  induction start generalizing text with
  | nil => simpa [after?] using found
  | cons s start ih =>
    cases text with
    | nil => simp [after?] at found
    | cons c text =>
      simp only [after?] at found
      split at found
      · subst s
        rw [ih found,List.cons_append]
      · cases found

@[simp] theorem after?_append (start rest : Text) : after? start (start ++ rest) = some rest := by
  induction start with
  | nil => simp [after?]
  | cons s start ih => simpa [after?] using ih

theorem after?_eq_some_iff {start text rest : Text} :
    after? start text = some rest ↔ text = start ++ rest :=
  ⟨after?_canonical,fun same => by rw [same,after?_append]⟩

def closedBy? (stop : Char) (text : Text) : Option (Text × Text) :=
  match text.dropWhile (· != stop) with
  | [] => none
  | _ :: rest => some (text.takeWhile (· != stop),rest)

@[simp] theorem closedBy?_nil (stop : Char) : closedBy? stop [] = none := rfl

theorem closedBy?_cons (stop c : Char) (text : Text) : closedBy? stop (c :: text) =
    if c = stop then some ([],text)
    else (closedBy? stop text).map fun found => (c :: found.1,found.2) := by
  by_cases same : c = stop
  · simp [closedBy?,List.dropWhile,List.takeWhile,same]
  · have passed : (c != stop) = true := by simpa using same
    simp only [closedBy?,List.dropWhile,List.takeWhile,same,passed,if_false]
    split <;> simp_all

theorem closedBy?_canonical {stop : Char} {text run rest : Text}
    (found : closedBy? stop text = some (run,rest)) : text = run ++ stop :: rest ∧ stop ∉ run := by
  induction text generalizing run with
  | nil => simp at found
  | cons c text ih =>
    rw [closedBy?_cons] at found
    split at found
    · cases found
      simp_all
    · rename_i other
      obtain ⟨inner,read,pair⟩ := Option.map_eq_some_iff.mp found
      cases pair
      obtain ⟨same,absent⟩ := ih read
      exact ⟨by rw [same,List.cons_append],by simp [absent,Ne.symm other]⟩

theorem closedBy?_append {stop : Char} {run : Text} (rest : Text) (absent : stop ∉ run) :
    closedBy? stop (run ++ stop :: rest) = some (run,rest) := by
  induction run with
  | nil => simp [closedBy?_cons]
  | cons c run ih =>
    simp only [List.mem_cons,not_or] at absent
    rw [List.cons_append,closedBy?_cons,if_neg (Ne.symm absent.1),ih absent.2]
    rfl

theorem closedBy?_eq_some_iff {stop : Char} {text run rest : Text} :
    closedBy? stop text = some (run,rest) ↔ text = run ++ stop :: rest ∧ stop ∉ run :=
  ⟨closedBy?_canonical,fun shape => by rw [shape.1,closedBy?_append rest shape.2]⟩

def splitAt (separator : Char) : Text → List Text
  | [] => [[]]
  | c :: rest =>
    if c = separator then [] :: splitAt separator rest
    else
      match splitAt separator rest with
      | [] => [[c]]
      | piece :: pieces => (c :: piece) :: pieces

def joinWith (separator : Text) : List Text → Text
  | [] => []
  | [piece] => piece
  | piece :: next :: rest => piece ++ separator ++ joinWith separator (next :: rest)

theorem splitAt_ne_nil (separator : Char) (text : Text) : splitAt separator text ≠ [] := by
  cases text with
  | nil => simp [splitAt]
  | cons c rest =>
    simp only [splitAt]
    split
    · simp
    · split <;> simp

def decimal (number : Nat) : Text := Nat.toDigits 10 number

def signed (number : Int) : Text :=
  if number < 0 then '-' :: decimal number.natAbs else decimal number.natAbs

def padRight (width : Nat) (text : Text) : Text :=
  text ++ List.replicate (width - text.length) ' '

def padZeros (width : Nat) (text : Text) : Text :=
  List.replicate (width - text.length) '0' ++ text

def stripSlashesRight (text : Text) : Text := (text.reverse.dropWhile (· == '/')).reverse

def stripSlashes (text : Text) : Text := stripSlashesRight (text.dropWhile (· == '/'))

end Plainmark.Text
