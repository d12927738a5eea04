import Mathlib.Data.List.Basic
import Plainmark.Diff.Unified

namespace Plainmark.Diff

def Run.Common (old new : List α) (run : Run) : Prop :=
  (old.drop run.oldAt).take run.size = (new.drop run.newAt).take run.size

-- Every entry of a row is the length of a stretch that the old sequence, from its
-- front, and the new one, from the entry's position on, have in common.
def RowCommon (old : List α) : List Nat → List α → Prop
  | [],_ => True
  | _ :: _,[] => False
  | size :: row,y :: new => old.take size = (y :: new).take size ∧ RowCommon old row new

theorem Run.Common.append {old new : List α} {i j m n : Nat} (one : Common old new ⟨i,j,m⟩)
    (two : Common old new ⟨i + m,j + m,n⟩) : Common old new ⟨i,j,m + n⟩ := by
  unfold Common at one two ⊢
  dsimp only at one two ⊢
  rw [List.take_add,List.take_add,List.drop_drop,List.drop_drop,one,two]

theorem commonFront_common [DecidableEq α] (old new : List α) :
    old.take (commonFront old new) = new.take (commonFront old new) := by
  fun_induction commonFront old new with
  | case1 x old new ih => rw [List.take_succ_cons,List.take_succ_cons,ih]
  | case2 x old y new apart => rw [List.take_zero,List.take_zero]
  | case3 old new short => rw [List.take_zero,List.take_zero]

theorem common_ahead [DecidableEq α] (old new : List α) (i j : Nat) :
    Run.Common old new ⟨i,j,commonFront (old.drop i) (new.drop j)⟩ :=
  commonFront_common _ _

theorem common_behind [DecidableEq α] (old new : List α) {i j : Nat} (inOld : i ≤ old.length)
    (inNew : j ≤ new.length) :
    let before := commonFront (old.take i).reverse (new.take j).reverse
    Run.Common old new ⟨i - before,j - before,before⟩ := by
  intro before
  have bounds := commonFront_le (old.take i).reverse (new.take j).reverse
  simp only [List.length_reverse,List.length_take] at bounds
  change before ≤ min i old.length ∧ before ≤ min j new.length at bounds
  have same : (old.take i).reverse.take before = (new.take j).reverse.take before :=
    commonFront_common _ _
  rw [List.take_reverse,List.take_reverse,List.reverse_inj,List.length_take,List.length_take,
    List.drop_take,List.drop_take] at same
  unfold Run.Common
  dsimp only
  have left : i - (min i old.length - before) = before := by omega
  have right : j - (min j new.length - before) = before := by omega
  rw [left,right,Nat.min_eq_left inOld,Nat.min_eq_left inNew] at same
  exact same

theorem zeros_common (old new : List α) : RowCommon old (new.map fun _ => 0) new := by
  induction new with
  | nil => trivial
  | cons y new ih => exact ⟨rfl,ih⟩

theorem RowCommon.tail {old new : List α} {y : α} {row : List Nat}
    (common : RowCommon old row (y :: new)) : RowCommon old row.tail new := by
  cases row with
  | nil => trivial
  | cons size row => exact common.2

theorem RowCommon.head {old new : List α} {row : List Nat} (common : RowCommon old row new) :
    old.take (row.headD 0) = new.take (row.headD 0) := by
  cases row with
  | nil => rfl
  | cons size row =>
    cases new with
    | nil => exact common.elim
    | cons y new => exact common.1

theorem extendRow_common [DecidableEq α] {old new : List α} {row : List Nat} (x : α)
    (common : RowCommon old row new) : RowCommon (x :: old) (extendRow x new row) new := by
  induction new generalizing row with
  | nil => trivial
  | cons y new ih =>
    refine ⟨?_,ih common.tail⟩
    by_cases same : x = y
    · rw [if_pos same,List.take_succ_cons,List.take_succ_cons,common.tail.head,same]
    · rw [if_neg same,List.take_zero,List.take_zero]

theorem longestInRow_common {old : List α} (front : List α) {new : List α} {row : List Nat}
    (common : RowCommon old row new) :
    (longestInRow front.length row).oldAt = 0 ∧
      Run.Common old (front ++ new) (longestInRow front.length row) := by
  induction row generalizing front new with
  | nil => exact ⟨rfl,rfl⟩
  | cons size row ih =>
    cases new with
    | nil => exact common.elim
    | cons y new =>
      have rest := ih (front ++ [y]) common.2
      rw [List.length_append,List.length_singleton,List.append_assoc,List.singleton_append] at rest
      simp only [longestInRow]
      split
      · refine ⟨rfl,?_⟩
        unfold Run.Common
        dsimp only
        rw [List.drop_zero,List.drop_left,common.1]
      · exact rest

theorem survey_common [DecidableEq α] (crowded old new : List α) :
    RowCommon old (survey crowded new old).1 new ∧
      Run.Common old new (survey crowded new old).2 := by
  induction old with
  | nil => exact ⟨zeros_common [] new,rfl⟩
  | cons x old ih =>
    obtain ⟨row,best⟩ := ih
    have next : RowCommon (x :: old) (if x ∈ crowded then new.map fun _ => 0
        else extendRow x new (survey crowded new old).1) new := by
      split
      · exact zeros_common _ _
      · exact extendRow_common x row
    simp only [survey]
    generalize (if x ∈ crowded then new.map fun _ => 0
      else extendRow x new (survey crowded new old).1) = extended at next
    refine ⟨next,?_⟩
    split
    · exact (longestInRow_common [] next).2
    · exact best

theorem longest_common [DecidableEq α] (crowded old new : List α) :
    Run.Common old new (longest crowded old new) := by
  obtain ⟨_,inOld,inNew⟩ := survey_bounds crowded new old
  have common := (survey_common crowded old new).2
  unfold longest
  dsimp only
  generalize (survey crowded new old).2 = found at inOld inNew common
  have start : ∀ run : Run, run = (if found.size = 0 then (⟨0,0,0⟩ : Run) else found) →
      run.oldAt + run.size ≤ old.length ∧ run.newAt + run.size ≤ new.length ∧
        Run.Common old new run := by
    intro run chosen
    split at chosen
    · subst chosen
      exact ⟨Nat.zero_le _,Nat.zero_le _,rfl⟩
    · rename_i filled
      subst chosen
      exact ⟨inOld,inNew.resolve_left filled,common⟩
  generalize chosen : (if found.size = 0 then (⟨0,0,0⟩ : Run) else found) = run
  obtain ⟨fitsOld,fitsNew,here⟩ := start run chosen.symm
  have behind := common_behind old new (Nat.le_trans (Nat.le_add_right _ _) fitsOld)
    (Nat.le_trans (Nat.le_add_right _ _) fitsNew)
  have bounds := commonFront_le (old.take run.oldAt).reverse (new.take run.newAt).reverse
  simp only [List.length_reverse,List.length_take] at bounds
  dsimp only at behind
  generalize commonFront (old.take run.oldAt).reverse (new.take run.newAt).reverse = before at *
  have ahead := common_ahead old new (run.oldAt + run.size) (run.newAt + run.size)
  generalize commonFront (old.drop (run.oldAt + run.size))
    (new.drop (run.newAt + run.size)) = after at *
  have oldAt : run.oldAt - before + before = run.oldAt := by omega
  have newAt : run.newAt - before + before = run.newAt := by omega
  have both : Run.Common old new ⟨run.oldAt - before,run.newAt - before,before + run.size⟩ :=
    behind.append (by rw [oldAt,newAt]; exact here)
  refine both.append ?_
  rw [← Nat.add_assoc,← Nat.add_assoc,oldAt,newAt]
  exact ahead

theorem align_old [DecidableEq α] (crowded old new : List α) :
    (align crowded old new).flatMap Chunk.old = old := by
  fun_induction align crowded old new with
  | case1 old new run nothing => simp [Chunk.old]
  | case2 old new run found before after =>
    rw [List.flatMap_append,List.flatMap_cons,before,after]
    simp only [Chunk.old]
    rw [← List.drop_drop,List.take_append_drop,List.take_append_drop]

theorem align_new [DecidableEq α] (crowded old new : List α) :
    (align crowded old new).flatMap Chunk.new = new := by
  fun_induction align crowded old new with
  | case1 old new run nothing => simp [Chunk.new]
  | case2 old new run found before after =>
    have common : (old.drop run.oldAt).take run.size = (new.drop run.newAt).take run.size :=
      longest_common crowded old new
    rw [List.flatMap_append,List.flatMap_cons,before,after]
    simp only [Chunk.new]
    rw [common,← List.drop_drop,List.take_append_drop,List.take_append_drop]

theorem flatMap_tidy {side : Chunk α → List α} (emptied : side (.change [] []) = [])
    (joined : ∀ one two, side (.same (one ++ two)) = side (.same one) ++ side (.same two))
    (chunks : List (Chunk α)) : (tidy chunks).flatMap side = chunks.flatMap side := by
  induction chunks with
  | nil => rfl
  | cons chunk chunks ih =>
    rw [List.flatMap_cons,← ih]
    cases chunk with
    | change removed added =>
      rw [tidy]
      split
      · rename_i nothing
        rw [Bool.and_eq_true,List.isEmpty_iff,List.isEmpty_iff] at nothing
        rw [nothing.1,nothing.2,emptied,List.nil_append]
      · rw [List.flatMap_cons]
    | same items =>
      rw [tidy]
      split
      · rename_i more rest shape
        rw [shape,List.flatMap_cons,List.flatMap_cons,joined,List.append_assoc]
      · rw [List.flatMap_cons]

theorem chunks_old [DecidableEq α] (old new : List α) :
    (chunks old new).flatMap Chunk.old = old := by
  rw [chunks,flatMap_tidy rfl fun _ _ => rfl,align_old]

theorem chunks_new [DecidableEq α] (old new : List α) :
    (chunks old new).flatMap Chunk.new = new := by
  rw [chunks,flatMap_tidy rfl fun _ _ => rfl,align_new]

theorem chunks_changed [DecidableEq α] {old new : List α} (differ : old ≠ new) :
    (chunks old new).any Chunk.isChange = true := by
  rw [← Bool.not_eq_false,List.any_eq_false]
  intro unchanged
  apply differ
  rw [← chunks_old old new]
  conv => rhs; rw [← chunks_new old new]
  refine List.flatMap_congr fun chunk member => ?_
  cases chunk with
  | same items => rfl
  | change removed added => exact absurd rfl (unchanged _ member)

def freshFront [DecidableEq α] (crowded : List α) : List α → List α → Nat
  | x :: old,y :: new => if x = y ∧ x ∉ crowded then freshFront crowded old new + 1 else 0
  | _,_ => 0

theorem freshFront_le_old [DecidableEq α] (crowded old new : List α) :
    freshFront crowded old new ≤ freshFront crowded old old := by
  fun_induction freshFront crowded old new with
  | case1 x old y new same ih =>
    rw [freshFront,if_pos ⟨rfl,same.2⟩]
    exact Nat.succ_le_succ ih
  | case2 => exact Nat.zero_le _
  | case3 => exact Nat.zero_le _

theorem freshFront_le_new [DecidableEq α] (crowded old new : List α) :
    freshFront crowded old new ≤ freshFront crowded new new := by
  fun_induction freshFront crowded old new with
  | case1 x old y new same ih =>
    rw [freshFront,if_pos ⟨rfl,same.1 ▸ same.2⟩]
    exact Nat.succ_le_succ ih
  | case2 => exact Nat.zero_le _
  | case3 => exact Nat.zero_le _

theorem extendRow_get [DecidableEq α] {crowded old new : List α} {row : List Nat} (x : α)
    (fresh : x ∉ crowded)
    (entries : ∀ j, row.getD j 0 = freshFront crowded old (new.drop j)) (j : Nat) :
    (extendRow x new row).getD j 0 = freshFront crowded (x :: old) (new.drop j) := by
  induction new generalizing row j with
  | nil => simp [extendRow,freshFront]
  | cons y new ih =>
    have behind : ∀ j, row.tail.getD j 0 = freshFront crowded old (new.drop j) := by
      intro j
      have entry := entries (j + 1)
      cases row with
      | nil => simpa using entry
      | cons size row => simpa using entry
    cases j with
    | succ j => exact ih behind j
    | zero =>
      have head : row.tail.headD 0 = freshFront crowded old new := by
        refine Eq.trans ?_ (behind 0)
        cases row.tail <;> rfl
      have first : (extendRow x (y :: new) row).getD 0 0 =
          if x = y then row.tail.headD 0 + 1 else 0 := rfl
      rw [first,head,List.drop_zero,freshFront]
      simp only [fresh,not_false_eq_true,and_true]

theorem survey_get [DecidableEq α] (crowded new old : List α) (j : Nat) :
    (survey crowded new old).1.getD j 0 = freshFront crowded old (new.drop j) := by
  have zeros : ∀ j, (new.map fun _ => 0).getD j 0 = 0 := by
    intro j
    rw [List.getD_eq_getElem?_getD,List.getElem?_map]
    cases new[j]? <;> rfl
  induction old generalizing j with
  | nil => exact (zeros j).trans (by rw [freshFront.eq_def])
  | cons x old ih =>
    simp only [survey]
    split
    · rename_i common
      rw [zeros]
      cases new.drop j with
      | nil => rfl
      | cons y rest => rw [freshFront,if_neg fun both => both.2 common]
    · rename_i fresh
      exact extendRow_get x fresh ih j

theorem longestInRow_le {row : List Nat} {most : Nat} (position : Nat)
    (bounded : ∀ size ∈ row, size ≤ most) : (longestInRow position row).size ≤ most := by
  induction row generalizing position with
  | nil => exact Nat.zero_le _
  | cons size row ih =>
    simp only [longestInRow]
    split
    · exact bounded size List.mem_cons_self
    · exact ih (position + 1) fun other member => bounded other (List.mem_cons_of_mem _ member)

theorem longestInRow_first {row : List Nat} {most k : Nat} (position : Nat)
    (bounded : ∀ size ∈ row, size ≤ most) (attained : row[k]? = some most) :
    ∃ j, j ≤ k ∧ row[j]? = some most ∧ longestInRow position row = ⟨0,position + j,most⟩ := by
  induction row generalizing position k with
  | nil => cases attained
  | cons size row ih =>
    have rest : ∀ size ∈ row, size ≤ most := fun other member =>
      bounded other (List.mem_cons_of_mem _ member)
    have head := bounded size List.mem_cons_self
    simp only [longestInRow]
    by_cases full : size = most
    · subst full
      rw [if_pos (longestInRow_le _ rest)]
      exact ⟨0,Nat.zero_le _,rfl,rfl⟩
    · cases k with
      | zero => exact absurd (Option.some.inj attained) full
      | succ k =>
        obtain ⟨j,le,entry,found⟩ := ih (position + 1) rest attained
        have short : ¬(longestInRow (position + 1) row).size ≤ size := by
          rw [found]
          exact fun long => full (Nat.le_antisymm head long)
        rw [if_neg short,found]
        exact ⟨j + 1,Nat.succ_le_succ le,entry,by rw [Nat.add_assoc,Nat.add_comm 1]⟩

theorem extendRow_length [DecidableEq α] (x : α) (new : List α) (row : List Nat) :
    (extendRow x new row).length = new.length := by
  induction new generalizing row with
  | nil => rfl
  | cons y new ih => rw [extendRow,List.length_cons,List.length_cons,ih]

theorem survey_length [DecidableEq α] (crowded new old : List α) :
    (survey crowded new old).1.length = new.length := by
  cases old with
  | nil => exact List.length_map _
  | cons x old =>
    simp only [survey]
    split
    · exact List.length_map _
    · exact extendRow_length _ _ _

def freshAt [DecidableEq α] (crowded whole : List α) (i : Nat) : Nat :=
  freshFront crowded (whole.drop i) (whole.drop i)

-- A sequence compared with itself: among the positions from `k` on, a run has the
-- first of the longest fresh stretches, and starts no later in the new sequence.
structure Foremost [DecidableEq α] (crowded whole : List α) (k : Nat) (run : Run) : Prop where
  longest : ∀ i, k ≤ i → freshAt crowded whole i ≤ run.size
  earliest : ∀ i, k ≤ i → i < k + run.oldAt → freshAt crowded whole i < run.size
  partner : run.size ≤ freshAt crowded whole run.newAt
  before : run.newAt ≤ k + run.oldAt

theorem survey_front [DecidableEq α] (crowded : List α) {whole old : List α} {x : α} {k : Nat}
    (stands : whole.drop k = x :: old) :
    ∃ j, j ≤ k ∧ freshAt crowded whole k ≤ freshAt crowded whole j ∧
      longestInRow 0 (survey crowded whole (x :: old)).1 = ⟨0,j,freshAt crowded whole k⟩ := by
  have here : freshAt crowded whole k = freshFront crowded (x :: old) (x :: old) := by
    rw [freshAt,stands]
  have entry : ∀ {j size}, (survey crowded whole (x :: old)).1[j]? = some size →
      size = freshFront crowded (x :: old) (whole.drop j) := by
    intro j size read
    rw [← survey_get,List.getD_eq_getElem?_getD,read,Option.getD_some]
  have inside : k < (survey crowded whole (x :: old)).1.length := by
    rw [survey_length,← List.drop_eq_nil_iff.not.trans Nat.not_le,stands]
    exact List.cons_ne_nil _ _
  have bounded : ∀ size ∈ (survey crowded whole (x :: old)).1,
      size ≤ freshAt crowded whole k := by
    intro size member
    obtain ⟨j,read⟩ := List.mem_iff_getElem?.mp member
    rw [entry read,here]
    exact freshFront_le_old _ _ _
  have attained : (survey crowded whole (x :: old)).1[k]? = some (freshAt crowded whole k) := by
    have read := List.getElem?_eq_getElem inside
    rw [read,entry read,stands,here]
  obtain ⟨j,le,read,found⟩ := longestInRow_first 0 bounded attained
  refine ⟨j,le,?_,by rw [found,Nat.zero_add]⟩
  rw [entry read]
  exact freshFront_le_new _ _ _

theorem survey_foremost [DecidableEq α] (crowded : List α) {whole old : List α} {k : Nat}
    (stands : whole.drop k = old) : Foremost crowded whole k (survey crowded whole old).2 := by
  induction old generalizing k with
  | nil =>
    refine ⟨fun i le => ?_,fun i le lt => absurd le (Nat.not_le_of_lt lt),Nat.zero_le _,
      Nat.zero_le _⟩
    have nothing : whole.drop i = [] :=
      List.drop_eq_nil_iff.mpr (Nat.le_trans (List.drop_eq_nil_iff.mp stands) le)
    rw [freshAt,nothing]
    exact Nat.le_refl _
  | cons x old ih =>
    have behind : whole.drop (k + 1) = old := by
      rw [← List.drop_drop,stands]
      rfl
    obtain ⟨longest,earliest,partner,before⟩ := ih behind
    obtain ⟨j,le,fresh,found⟩ := survey_front crowded stands
    have step : (survey crowded whole (x :: old)).2 =
        if (survey crowded whole old).2.size ≤ freshAt crowded whole k then
          ⟨0,j,freshAt crowded whole k⟩
        else (survey crowded whole old).2.later := by
      have unfolded : (survey crowded whole (x :: old)).2 =
          if (survey crowded whole old).2.size ≤
              (longestInRow 0 (survey crowded whole (x :: old)).1).size then
            longestInRow 0 (survey crowded whole (x :: old)).1
          else (survey crowded whole old).2.later := rfl
      rw [unfolded,found]
    rw [step]
    split
    · rename_i short
      refine ⟨fun i from_ => ?_,fun i from_ lt => absurd from_ (Nat.not_le_of_lt lt),fresh,le⟩
      rcases Nat.eq_or_lt_of_le from_ with rfl | further
      · exact Nat.le_refl _
      · exact Nat.le_trans (longest i further) short
    · rename_i long
      have less := Nat.lt_of_not_le long
      refine ⟨fun i from_ => ?_,fun i from_ lt => ?_,partner,?_⟩
      · rcases Nat.eq_or_lt_of_le from_ with rfl | further
        · exact Nat.le_of_lt less
        · exact longest i further
      · rcases Nat.eq_or_lt_of_le from_ with rfl | further
        · exact less
        · refine earliest i further ?_
          rw [Nat.add_assoc,Nat.add_comm 1]
          exact lt
      · refine Nat.le_trans before ?_
        rw [Nat.add_assoc,Nat.add_comm 1]
        exact Nat.le_refl _

theorem survey_diagonal [DecidableEq α] (crowded whole : List α) :
    (survey crowded whole whole).2.newAt = (survey crowded whole whole).2.oldAt := by
  obtain ⟨longest,earliest,partner,before⟩ := survey_foremost crowded
    (List.drop_zero (l := whole))
  rw [Nat.zero_add] at before
  rcases Nat.eq_or_lt_of_le before with same | lt
  · exact same
  · have less := earliest _ (Nat.zero_le _) (by rw [Nat.zero_add]; exact lt)
    exact absurd partner (Nat.not_le_of_lt less)

theorem commonFront_self [DecidableEq α] (items : List α) :
    commonFront items items = items.length := by
  induction items with
  | nil => rfl
  | cons x items ih => rw [commonFront,if_pos rfl,ih,List.length_cons]

theorem longest_self [DecidableEq α] (crowded whole : List α) :
    longest crowded whole whole = ⟨0,0,whole.length⟩ := by
  obtain ⟨_,inside,_⟩ := survey_bounds crowded whole whole
  have diagonal := survey_diagonal crowded whole
  have spread : ∀ run : Run, run.newAt = run.oldAt → run.oldAt + run.size ≤ whole.length →
      (⟨run.oldAt - commonFront (whole.take run.oldAt).reverse (whole.take run.newAt).reverse,
        run.newAt - commonFront (whole.take run.oldAt).reverse (whole.take run.newAt).reverse,
        commonFront (whole.take run.oldAt).reverse (whole.take run.newAt).reverse + run.size +
          commonFront (whole.drop (run.oldAt + run.size)) (whole.drop (run.newAt + run.size))⟩ :
            Run) = ⟨0,0,whole.length⟩ := by
    intro run same fits
    rw [same,commonFront_self,commonFront_self,List.length_reverse,List.length_take,
      List.length_drop,Nat.min_eq_left (by omega),Nat.sub_self]
    congr 1
    omega
  refine spread (if (survey crowded whole whole).2.size = 0 then ⟨0,0,0⟩
    else (survey crowded whole whole).2) ?_ ?_
  · split
    · rfl
    · exact diagonal
  · split
    · exact Nat.zero_le _
    · exact inside

theorem align_nil [DecidableEq α] (crowded : List α) :
    align crowded [] [] = [.change [] []] := by
  rw [align,longest_self]
  rfl

theorem chunks_self [DecidableEq α] (items : List α) :
    (chunks items items).any Chunk.isChange = false := by
  unfold chunks
  rw [align,longest_self]
  cases items with
  | nil => rfl
  | cons x items =>
    simp only [Nat.zero_add,List.take_zero,List.drop_zero,List.take_length,List.drop_length]
    rw [align_nil]
    rfl

theorem chunks_changed_iff [DecidableEq α] {old new : List α} :
    (chunks old new).any Chunk.isChange = true ↔ old ≠ new := by
  refine ⟨fun changed same => ?_,chunks_changed⟩
  rw [same,chunks_self] at changed
  cases changed

theorem prepend_changes (chunk : Chunk α) (hunk : Hunk α) :
    (hunk.prepend chunk).chunks.any Chunk.isChange =
      (chunk.isChange || hunk.chunks.any Chunk.isChange) := rfl

theorem cut_changes (context oldAt newAt : Nat) (chunks : List (Chunk α)) :
    ((cut context oldAt newAt chunks).1 :: (cut context oldAt newAt chunks).2).any
      (fun hunk => hunk.chunks.any Chunk.isChange) = chunks.any Chunk.isChange := by
  induction chunks generalizing oldAt newAt with
  | nil => rfl
  | cons chunk chunks ih =>
    have rest := ih (oldAt + chunk.old.length) (newAt + chunk.new.length)
    rw [List.any_cons] at rest
    rw [List.any_cons (l := chunks),← rest,List.any_cons]
    cases chunk with
    | change removed added =>
      simp only [cut]
      rw [prepend_changes,Bool.or_assoc]
    | same items =>
      simp only [cut]
      split
      · dsimp only
        rw [List.any_cons,List.any_cons,prepend_changes]
        rfl
      · rw [prepend_changes,Bool.or_assoc]

theorem trimBack_changes (context : Nat) (chunks : List (Chunk α)) :
    (trimBack context chunks).any Chunk.isChange = chunks.any Chunk.isChange := by
  induction chunks with
  | nil => rfl
  | cons chunk chunks ih =>
    cases chunk with
    | change removed added =>
      rw [trimBack,List.any_cons,List.any_cons,ih]
      intro items shape
      cases shape
    | same items =>
      cases chunks with
      | nil => rfl
      | cons next rest =>
        rw [trimBack,List.any_cons,List.any_cons,ih]
        intro last shape none
        cases none

theorem trimFront_changes (context : Nat) (chunks : List (Chunk α)) :
    (trimFront context chunks).2.any Chunk.isChange = chunks.any Chunk.isChange := by
  unfold trimFront
  split <;> rfl

theorem hunks_eq_nil_iff (context : Nat) (chunks : List (Chunk α)) :
    hunks context chunks = [] ↔ chunks.any Chunk.isChange = false := by
  rw [hunks_eq,← trimFront_changes context,← trimBack_changes context,
    ← cut_changes context (trimFront context chunks).1 (trimFront context chunks).1,
    List.filter_eq_nil_iff,List.any_eq_false]
  rfl

end Plainmark.Diff

namespace Plainmark.Diff
open Text

theorem splitLines_injective {old new : Text} (differ : old ≠ new) :
    (Line.split old).map Line.full ≠ (Line.split new).map Line.full := by
  intro same
  apply differ
  rw [← Line.flatMap_split old,← Line.flatMap_split new,List.flatMap_def,List.flatMap_def,same]

theorem unified_visible {old new : Text} (differ : old ≠ new) (label : Text) (context : Nat) :
    (unified old new label context).flatten ≠ [] := by
  have changed := chunks_changed (splitLines_injective differ)
  have filled : hunks context (chunks ((Line.split old).map Line.full)
      ((Line.split new).map Line.full)) ≠ [] := by
    intro none
    rw [hunks_eq_nil_iff,changed] at none
    cases none
  unfold unified
  simp [filled]

end Plainmark.Diff
