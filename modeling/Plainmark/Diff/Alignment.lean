namespace Plainmark.Diff

-- A stretch common to an old and a new sequence: where it starts in each, and
-- its length.
structure Run where
  oldAt : Nat
  newAt : Nat
  size : Nat
deriving DecidableEq

inductive Chunk (α : Type) where
  | same (items : List α)
  | change (removed added : List α)
deriving DecidableEq

-- In a long sequence an item met too often says little about where things
-- belong. From 200 items on, one that makes up more than a hundredth is not
-- looked for.
def crowd [DecidableEq α] (new : List α) : List α :=
  if new.length < 200 then []
  else new.eraseDups.filter fun item => new.length / 100 + 1 < new.count item

-- Common lengths from each position of the new sequence on, for an old sequence
-- with one more item in front. `row` holds them for the old sequence without it.
def extendRow [DecidableEq α] (x : α) : List α → List Nat → List Nat
  | [],_ => []
  | y :: new,row => (if x = y then row.tail.headD 0 + 1 else 0) :: extendRow x new row.tail

def longestInRow : Nat → List Nat → Run
  | _,[] => ⟨0,0,0⟩
  | position,size :: row =>
    let other := longestInRow (position + 1) row
    if other.size ≤ size then ⟨0,position,size⟩ else other

def Run.later (run : Run) : Run := ⟨run.oldAt + 1,run.newAt,run.size⟩

-- The row at the front of the old sequence, and the longest run without an
-- item of the crowd. Of equally long ones the earliest in the old sequence
-- wins, then the earliest in the new one.
def survey [DecidableEq α] (crowded new : List α) : List α → List Nat × Run
  | [] => (new.map fun _ => 0,⟨0,0,0⟩)
  | x :: old =>
    let (row,best) := survey crowded new old
    let row := if x ∈ crowded then new.map fun _ => 0 else extendRow x new row
    let here := longestInRow 0 row
    (row,if best.size ≤ here.size then here else best.later)

def commonFront [DecidableEq α] : List α → List α → Nat
  | x :: old,y :: new => if x = y then commonFront old new + 1 else 0
  | _,_ => 0

-- The run that `survey` finds, as far as it goes on to both sides; here items
-- of the crowd count. Without such a run, what both have at the front.
def longest [DecidableEq α] (crowded old new : List α) : Run :=
  let found := (survey crowded new old).2
  let found := if found.size = 0 then ⟨0,0,0⟩ else found
  let before := commonFront (old.take found.oldAt).reverse (new.take found.newAt).reverse
  let after := commonFront (old.drop (found.oldAt + found.size)) (new.drop (found.newAt + found.size))
  ⟨found.oldAt - before,found.newAt - before,before + found.size + after⟩

theorem commonFront_le [DecidableEq α] (old new : List α) :
    commonFront old new ≤ old.length ∧ commonFront old new ≤ new.length := by
  fun_induction commonFront old new <;> simp_all

def RowFits (limit : Nat) : List Nat → List α → Prop
  | [],_ => True
  | _ :: _,[] => False
  | size :: row,y :: new => size ≤ limit ∧ size ≤ (y :: new).length ∧ RowFits limit row new

theorem extendRow_fits [DecidableEq α] {limit : Nat} {row : List Nat} {new : List α} (x : α)
    (fits : RowFits limit row new) : RowFits (limit + 1) (extendRow x new row) new := by
  induction new generalizing row with
  | nil => simp [extendRow,RowFits]
  | cons y new ih =>
    have tailFits : RowFits limit row.tail new := by
      cases row with
      | nil => simp [RowFits]
      | cons size row => exact fits.2.2
    refine ⟨?_,?_,ih tailFits⟩
    · split
      · cases shape : row.tail with
        | nil => simp
        | cons size rest =>
          rw [shape] at tailFits
          cases new with
          | nil => exact tailFits.elim
          | cons z new => simpa using tailFits.1
      · omega
    · split
      · cases shape : row.tail with
        | nil => simp
        | cons size rest =>
          rw [shape] at tailFits
          cases new with
          | nil => exact tailFits.elim
          | cons z new =>
            have bound := tailFits.2.1
            simp at bound ⊢
            omega
      · omega

theorem zeros_fit (limit : Nat) (new : List α) : RowFits limit (new.map fun _ => 0) new := by
  induction new with
  | nil => simp [RowFits]
  | cons y new ih => exact ⟨Nat.zero_le _,Nat.zero_le _,ih⟩

theorem longestInRow_bounds {limit : Nat} {row : List Nat} {new : List α} (position : Nat)
    (fits : RowFits limit row new) :
    let run := longestInRow position row
    run.oldAt = 0 ∧ run.size ≤ limit ∧
      (run.size = 0 ∨ run.newAt + run.size ≤ position + new.length) := by
  induction row generalizing position new with
  | nil => simp [longestInRow]
  | cons size row ih =>
    cases new with
    | nil => exact fits.elim
    | cons y new =>
      have rest := ih (position + 1) fits.2.2
      have bound := fits.2.1
      simp only [longestInRow,List.length_cons] at *
      split
      · exact ⟨rfl,fits.1,Or.inr (by dsimp only; omega)⟩
      · refine ⟨rest.1,rest.2.1,rest.2.2.imp id fun inside => ?_⟩
        omega

theorem survey_bounds [DecidableEq α] (crowded new old : List α) :
    RowFits old.length (survey crowded new old).1 new ∧
      (survey crowded new old).2.oldAt + (survey crowded new old).2.size ≤ old.length ∧
      ((survey crowded new old).2.size = 0 ∨
        (survey crowded new old).2.newAt + (survey crowded new old).2.size ≤ new.length) := by
  induction old with
  | nil => exact ⟨zeros_fit _ _,by simp [survey],Or.inl rfl⟩
  | cons x old ih =>
    obtain ⟨fits,inOld,inNew⟩ := ih
    have rowFits : RowFits (old.length + 1)
        (if x ∈ crowded then new.map fun _ => 0 else extendRow x new (survey crowded new old).1) new := by
      split
      · exact zeros_fit _ _
      · exact extendRow_fits x fits
    generalize shape : (if x ∈ crowded then new.map fun _ => 0
      else extendRow x new (survey crowded new old).1) = row at rowFits
    generalize earlier : (survey crowded new old).2 = best at inOld inNew
    have unfolded : survey crowded new (x :: old) = (row,
        if best.size ≤ (longestInRow 0 row).size then longestInRow 0 row else best.later) := by
      rw [← shape,← earlier]
      rfl
    have bounds := longestInRow_bounds 0 rowFits
    dsimp only at bounds
    rw [unfolded,List.length_cons]
    refine ⟨rowFits,?_⟩
    dsimp only
    split
    · exact ⟨by omega,bounds.2.2.imp id fun inside => by omega⟩
    · exact ⟨by simp only [Run.later]; omega,inNew⟩

theorem longest_bounds [DecidableEq α] (crowded old new : List α) :
    (longest crowded old new).oldAt + (longest crowded old new).size ≤ old.length ∧
      (longest crowded old new).newAt + (longest crowded old new).size ≤ new.length := by
  obtain ⟨_,inOld,inNew⟩ := survey_bounds crowded new old
  unfold longest
  dsimp only
  generalize (survey crowded new old).2 = found at inOld inNew
  have inside : ∀ start : Run,
      start = (if found.size = 0 then (⟨0,0,0⟩ : Run) else found) →
      start.oldAt + start.size ≤ old.length ∧ start.newAt + start.size ≤ new.length := by
    intro start chosen
    split at chosen
    · subst chosen
      simp
    · subst chosen
      exact ⟨inOld,inNew.resolve_left (by assumption)⟩
  generalize chosen : (if found.size = 0 then (⟨0,0,0⟩ : Run) else found) = start
  obtain ⟨oldFits,newFits⟩ := inside start chosen.symm
  have before := commonFront_le (old.take start.oldAt).reverse (new.take start.newAt).reverse
  have after := commonFront_le (old.drop (start.oldAt + start.size)) (new.drop (start.newAt + start.size))
  simp only [List.length_reverse,List.length_take,List.length_drop] at before after
  omega

-- Two sequences are aligned at their longest common run, and what lies before
-- and behind it in the same way. Without a run all of the old is replaced.
def align [DecidableEq α] (crowded old new : List α) : List (Chunk α) :=
  let run := longest crowded old new
  if _nothing : run.size = 0 then [.change old new]
  else
    align crowded (old.take run.oldAt) (new.take run.newAt) ++
      .same ((old.drop run.oldAt).take run.size) ::
      align crowded (old.drop (run.oldAt + run.size)) (new.drop (run.newAt + run.size))
termination_by old.length
decreasing_by
  · have found : ¬(longest crowded old new).size = 0 := _nothing
    have bounds := longest_bounds crowded old new
    rw [List.length_take]
    change min (longest crowded old new).oldAt _ < _
    omega
  · have found : ¬(longest crowded old new).size = 0 := _nothing
    have bounds := longest_bounds crowded old new
    rw [List.length_drop]
    change _ - ((longest crowded old new).oldAt + (longest crowded old new).size) < _
    omega

def tidy : List (Chunk α) → List (Chunk α)
  | [] => []
  | .change removed added :: chunks =>
    if removed.isEmpty && added.isEmpty then tidy chunks else .change removed added :: tidy chunks
  | .same items :: chunks =>
    match tidy chunks with
    | .same more :: rest => .same (items ++ more) :: rest
    | rest => .same items :: rest

def chunks [DecidableEq α] (old new : List α) : List (Chunk α) := tidy (align (crowd new) old new)

def Chunk.old : Chunk α → List α
  | .same items => items
  | .change removed _ => removed

def Chunk.new : Chunk α → List α
  | .same items => items
  | .change _ added => added

def Chunk.removed : Chunk α → List α
  | .same _ => []
  | .change removed _ => removed

def Chunk.added : Chunk α → List α
  | .same _ => []
  | .change _ added => added

end Plainmark.Diff
