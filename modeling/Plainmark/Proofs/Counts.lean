import Mathlib.Data.List.Basic
import Plainmark.Proofs.Alignment

namespace Plainmark.Diff
variable {old new : List α}

def Chunk.kept : Chunk α → List α
  | .same items => items
  | .change .. => []

theorem Chunk.kept_old (chunk : Chunk α) : chunk.kept.Sublist chunk.old := by
  cases chunk with
  | same items => exact List.Sublist.refl items
  | change removed added => exact List.nil_sublist removed

theorem Chunk.kept_new (chunk : Chunk α) : chunk.kept.Sublist chunk.new := by
  cases chunk with
  | same items => exact List.Sublist.refl items
  | change removed added => exact List.nil_sublist added

theorem Chunk.old_length (chunk : Chunk α) :
    chunk.old.length = chunk.kept.length + chunk.removed.length := by
  cases chunk with
  | same items => rfl
  | change removed added => exact (Nat.zero_add _).symm

theorem Chunk.new_length (chunk : Chunk α) :
    chunk.new.length = chunk.kept.length + chunk.added.length := by
  cases chunk with
  | same items => rfl
  | change removed added => exact (Nat.zero_add _).symm

theorem kept_sublist {side : Chunk α → List α}
    (part : ∀ chunk : Chunk α, chunk.kept.Sublist (side chunk)) (chunks : List (Chunk α)) :
    (chunks.flatMap Chunk.kept).Sublist (chunks.flatMap side) := by
  induction chunks with
  | nil => exact List.Sublist.refl []
  | cons chunk chunks ih =>
    rw [List.flatMap_cons,List.flatMap_cons]
    exact (part chunk).append ih

theorem length_parts {side other : Chunk α → List α}
    (parts : ∀ chunk : Chunk α, (side chunk).length = chunk.kept.length + (other chunk).length)
    (chunks : List (Chunk α)) : (chunks.flatMap side).length =
      (chunks.flatMap Chunk.kept).length + (chunks.flatMap other).length := by
  induction chunks with
  | nil => rfl
  | cons chunk chunks ih =>
    simp only [List.flatMap_cons,List.length_append]
    rw [parts chunk,ih]
    omega

theorem chunks_balance [DecidableEq α] (old new : List α) :
    ((chunks old new).flatMap Chunk.kept).Sublist old ∧
      ((chunks old new).flatMap Chunk.kept).Sublist new ∧
      old.length = ((chunks old new).flatMap Chunk.kept).length +
        ((chunks old new).flatMap Chunk.removed).length ∧
      new.length = ((chunks old new).flatMap Chunk.kept).length +
        ((chunks old new).flatMap Chunk.added).length := by
  have inOld := kept_sublist Chunk.kept_old (chunks old new)
  have inNew := kept_sublist Chunk.kept_new (chunks old new)
  have oldParts := length_parts Chunk.old_length (chunks old new)
  have newParts := length_parts Chunk.new_length (chunks old new)
  rw [chunks_old] at inOld oldParts
  rw [chunks_new] at inNew newParts
  exact ⟨inOld,inNew,oldParts,newParts⟩

theorem unchanged_side {chunks : List (Chunk α)} {side : Chunk α → List α}
    (silent : ∀ items, side (.same items) = [])
    (unchanged : chunks.any Chunk.isChange = false) : chunks.flatMap side = [] := by
  rw [List.any_eq_false] at unchanged
  rw [List.flatMap_eq_nil_iff]
  intro chunk member
  cases chunk with
  | same items => exact silent items
  | change removed added => exact absurd rfl (unchanged _ member)

theorem sides_empty_iff [DecidableEq α] :
    ((chunks old new).flatMap Chunk.removed).length = 0 ∧
      ((chunks old new).flatMap Chunk.added).length = 0 ↔ old = new := by
  constructor
  · rintro ⟨removed,added⟩
    -- What is kept is then as long as either sequence.
    obtain ⟨inOld,inNew,oldParts,newParts⟩ := chunks_balance old new
    have whole := inOld.eq_of_length (by omega)
    have other := inNew.eq_of_length (by omega)
    exact whole.symm.trans other
  · rintro rfl
    have unchanged := chunks_self old
    rw [unchanged_side (fun _ => rfl) unchanged,unchanged_side (fun _ => rfl) unchanged]
    exact ⟨rfl,rfl⟩

end Plainmark.Diff

namespace Plainmark.Diff
open Text

def bodies (text : Text) : List Text := (Line.split text).map Line.body

-- The counts of a change balance: they stay within the lines of both texts, differ as
-- the numbers of lines do, leave over the length of a common subsequence on both sides,
-- and vanish exactly for the same lines.
theorem counts_balance (old new : Text) :
    (counts old new).deleted ≤ (bodies old).length ∧
      (counts old new).added ≤ (bodies new).length ∧
      ((counts old new).added : Int) - (counts old new).deleted =
        (bodies new).length - (bodies old).length ∧
      (∃ common : List Text, common.Sublist (bodies old) ∧ common.Sublist (bodies new) ∧
        common.length = (bodies old).length - (counts old new).deleted ∧
        common.length = (bodies new).length - (counts old new).added) ∧
      ((counts old new).added = 0 ∧ (counts old new).deleted = 0 ↔ bodies old = bodies new) := by
  obtain ⟨inOld,inNew,oldParts,newParts⟩ := chunks_balance (bodies old) (bodies new)
  have deleted : (counts old new).deleted =
      ((chunks (bodies old) (bodies new)).flatMap Chunk.removed).length := rfl
  have added : (counts old new).added =
      ((chunks (bodies old) (bodies new)).flatMap Chunk.added).length := rfl
  have empty : (counts old new).added = 0 ∧ (counts old new).deleted = 0 ↔
      bodies old = bodies new := by
    rw [deleted,added,and_comm]
    exact sides_empty_iff
  rw [← deleted] at oldParts
  rw [← added] at newParts
  exact ⟨by omega,by omega,by omega,⟨_,inOld,inNew,by omega,by omega⟩,empty⟩

example : counts "a\nb\nc\n".toList "a\nc\nd\ne".toList = ⟨2,1⟩ := by decide +kernel

end Plainmark.Diff
