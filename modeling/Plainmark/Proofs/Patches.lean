import Mathlib.Data.List.Basic
import Plainmark.Proofs.Alignment

namespace Plainmark.Diff

def Hunk.old (hunk : Hunk α) : List α := hunk.chunks.flatMap Chunk.old

def Hunk.new (hunk : Hunk α) : List α := hunk.chunks.flatMap Chunk.new

-- Hunks lead from old lines to new ones, from a place in both on: in front of a
-- hunk, and behind the last one, both have the same lines.
inductive Leads : Nat → Nat → List (Hunk α) → List α → List α → Prop where
  | rest (lines : List α) : Leads i j [] lines lines
  | hunk {hunk : Hunk α} {later : List (Hunk α)} {old new : List α} (gap : List α)
      (oldAt : hunk.oldAt = i + gap.length) (newAt : hunk.newAt = j + gap.length)
      (onward : Leads (hunk.oldAt + hunk.oldSize) (hunk.newAt + hunk.newSize) later old new) :
      Leads i j (hunk :: later) (gap ++ (hunk.old ++ old)) (gap ++ (hunk.new ++ new))

inductive Opens : Nat → Nat → Hunk α → List (Hunk α) → List α → List α → Prop where
  | hunk {hunk : Hunk α} {later : List (Hunk α)} {old new : List α}
      (oldAt : hunk.oldAt = i) (newAt : hunk.newAt = j)
      (onward : Leads (i + hunk.oldSize) (j + hunk.newSize) later old new) :
      Opens i j hunk later (hunk.old ++ old) (hunk.new ++ new)

variable {i j : Nat} {hunk : Hunk α} {later : List (Hunk α)} {old new : List α}

theorem Leads.behind (common : List α)
    (leads : Leads (i + common.length) (j + common.length) later old new) :
    Leads i j later (common ++ old) (common ++ new) := by
  cases leads with
  | rest lines => exact .rest _
  | hunk gap oldAt newAt onward =>
    rw [← List.append_assoc,← List.append_assoc common]
    refine .hunk (common ++ gap) ?_ ?_ onward
    · rw [oldAt,List.length_append,Nat.add_assoc]
    · rw [newAt,List.length_append,Nat.add_assoc]

theorem Opens.leads (common : List α)
    (opens : Opens (i + common.length) (j + common.length) hunk later old new) :
    Leads i j (hunk :: later) (common ++ old) (common ++ new) := by
  cases opens with
  | hunk oldAt newAt onward =>
    refine .hunk common oldAt newAt ?_
    rw [oldAt,newAt]
    exact onward

theorem Opens.prepend (chunk : Chunk α)
    (opens : Opens (i + chunk.old.length) (j + chunk.new.length) hunk later old new) :
    Opens i j (hunk.prepend chunk) later (chunk.old ++ old) (chunk.new ++ new) := by
  cases opens with
  | @hunk old new oldAt newAt onward =>
    have oldSize : (hunk.prepend chunk).oldSize = chunk.old.length + hunk.oldSize :=
      List.length_append
    have newSize : (hunk.prepend chunk).newSize = chunk.new.length + hunk.newSize :=
      List.length_append
    have opened : Opens i j (hunk.prepend chunk) later ((hunk.prepend chunk).old ++ old)
        ((hunk.prepend chunk).new ++ new) := by
      refine .hunk ?_ ?_ ?_
      · rw [Hunk.prepend,oldAt,Nat.add_sub_cancel]
      · rw [Hunk.prepend,newAt,Nat.add_sub_cancel]
      · rw [oldSize,newSize,← Nat.add_assoc,← Nat.add_assoc]
        exact onward
    rw [← List.append_assoc,← List.append_assoc chunk.new]
    exact opened

theorem Leads.filter (leads : Leads i j later old new) :
    Leads i j (later.filter fun hunk => hunk.chunks.any Chunk.isChange) old new := by
  induction leads with
  | rest lines => exact .rest lines
  | @hunk i j hunk later old new gap oldAt newAt onward ih =>
    cases changes : hunk.chunks.any Chunk.isChange with
    | true =>
      rw [List.filter_cons_of_pos (by exact changes)]
      exact .hunk gap oldAt newAt ih
    | false =>
      rw [List.filter_cons_of_neg (by simp [changes])]
      have same : hunk.old = hunk.new := by
        refine List.flatMap_congr fun chunk member => ?_
        cases chunk with
        | same items => rfl
        | change removed added => exact absurd rfl (List.any_eq_false.mp changes _ member)
      have oldSize : hunk.oldSize = hunk.old.length := rfl
      have newSize : hunk.newSize = hunk.old.length := by rw [same]; rfl
      rw [← same,← List.append_assoc,← List.append_assoc]
      apply Leads.behind
      rw [List.length_append,← Nat.add_assoc,← Nat.add_assoc,← oldAt,← newAt]
      rw [oldSize,newSize] at ih
      exact ih

theorem front_hidden_back {context : Nat} {items : List α} (long : 2 * context < items.length) :
    ∃ hidden,
      items = items.take context ++ (hidden ++ items.drop (items.length - context)) := by
  refine ⟨(items.take (items.length - context)).drop context,?_⟩
  have front : items.take context = (items.take (items.length - context)).take context := by
    rw [List.take_take,Nat.min_eq_left (by omega)]
  rw [front,← List.append_assoc,List.take_append_drop,List.take_append_drop]

theorem Opens.parted {context : Nat} {items : List α} (long : 2 * context < items.length)
    (opens : Opens (i + items.length) (j + items.length) hunk later old new) :
    Opens i j ⟨i,j,[.same (items.take context)]⟩
      (hunk.prepend (.same (items.drop (items.length - context))) :: later)
      (items ++ old) (items ++ new) := by
  obtain ⟨hidden,whole⟩ := front_hidden_back long
  generalize items.take context = front at whole ⊢
  generalize items.drop (items.length - context) = back at whole ⊢
  subst whole
  simp only [List.length_append,← Nat.add_assoc] at opens
  have onward := (opens.prepend (.same back)).leads hidden
  have shown : Opens i j ⟨i,j,[.same front]⟩ (hunk.prepend (.same back) :: later)
      ((front ++ []) ++ (hidden ++ (back ++ old))) ((front ++ []) ++ (hidden ++ (back ++ new))) :=
    .hunk rfl rfl (by simpa [Hunk.oldSize,Hunk.newSize,Chunk.old,Chunk.new] using onward)
  simpa using shown

theorem cut_opens (context i j : Nat) (chunks : List (Chunk α)) (tail : List α) :
    Opens i j (cut context i j chunks).1 (cut context i j chunks).2
      (chunks.flatMap Chunk.old ++ tail) (chunks.flatMap Chunk.new ++ tail) := by
  induction chunks generalizing i j with
  | nil => exact @Opens.hunk α i j ⟨i,j,[]⟩ [] tail tail rfl rfl (.rest tail)
  | cons chunk chunks ih =>
    have next := ih (i + chunk.old.length) (j + chunk.new.length)
    rw [List.flatMap_cons,List.flatMap_cons,List.append_assoc,List.append_assoc]
    cases chunk with
    | change removed added => exact next.prepend (.change removed added)
    | same items =>
      simp only [cut]
      split
      · rename_i long
        exact next.parted long
      · exact next.prepend (.same items)

theorem trimBack_tail (context : Nat) (chunks : List (Chunk α)) :
    ∃ tail, chunks.flatMap Chunk.old = (trimBack context chunks).flatMap Chunk.old ++ tail ∧
      chunks.flatMap Chunk.new = (trimBack context chunks).flatMap Chunk.new ++ tail := by
  fun_induction trimBack context chunks with
  | case1 => exact ⟨[],rfl,rfl⟩
  | case2 items => exact ⟨items.drop context,by simp [Chunk.old],by simp [Chunk.new]⟩
  | case3 chunk chunks other ih =>
    obtain ⟨tail,old,new⟩ := ih
    refine ⟨tail,?_,?_⟩
    · rw [List.flatMap_cons,old,List.flatMap_cons,List.append_assoc]
    · rw [List.flatMap_cons,new,List.flatMap_cons,List.append_assoc]

theorem trimFront_front (context : Nat) (chunks : List (Chunk α)) :
    ∃ front : List α, (trimFront context chunks).1 = front.length ∧
      chunks.flatMap Chunk.old = front ++ (trimFront context chunks).2.flatMap Chunk.old ∧
      chunks.flatMap Chunk.new = front ++ (trimFront context chunks).2.flatMap Chunk.new := by
  unfold trimFront
  split
  · rename_i items rest
    refine ⟨items.take (items.length - context),?_,?_,?_⟩
    · rw [List.length_take,Nat.min_eq_left (Nat.sub_le _ _)]
    · simp only [List.flatMap_cons,Chunk.old,← List.append_assoc,List.take_append_drop]
    · simp only [List.flatMap_cons,Chunk.new,← List.append_assoc,List.take_append_drop]
  · exact ⟨[],rfl,rfl,rfl⟩

theorem hunks_lead (context : Nat) (chunks : List (Chunk α)) :
    Leads 0 0 (hunks context chunks) (chunks.flatMap Chunk.old) (chunks.flatMap Chunk.new) := by
  obtain ⟨front,size,oldWhole,newWhole⟩ := trimFront_front context chunks
  obtain ⟨tail,old,new⟩ := trimBack_tail context (trimFront context chunks).2
  rw [hunks_eq,oldWhole,newWhole,old,new,size]
  apply Leads.filter
  apply Opens.leads
  rw [Nat.zero_add]
  exact cut_opens _ _ _ _ _

end Plainmark.Diff

namespace Plainmark.Patch
open Text Diff

-- The lines that a hunk speaks of in one file: how many stand in front of them, and
-- how many they are.
structure Extent where
  start : Nat
  size : Nat
deriving DecidableEq

def number? (text : Text) : Option (Nat × Text) :=
  match text.takeWhile Char.isDigit with
  | [] => none
  | digits => some (Nat.ofDigitChars 10 digits 0,text.dropWhile Char.isDigit)

def extent? (first size : Nat) : Option Extent :=
  match first,size with
  | first,0 => some ⟨first,0⟩
  | 0,_ + 1 => none
  | first + 1,size => some ⟨first,size⟩

def range? (text : Text) : Option (Extent × Text) :=
  (number? text).bind fun (first,rest) =>
    match rest with
    | ',' :: more =>
      (number? more).bind fun (size,rest) => (extent? first size).map fun extent => (extent,rest)
    | _ => (extent? first 1).map fun extent => (extent,rest)

def header? (entry : Text) : Option (Extent × Extent) :=
  (after? "@@ -".toList entry).bind fun text =>
    (range? text).bind fun (old,text) =>
      (after? " +".toList text).bind fun text =>
        (range? text).bind fun (new,text) =>
          if text = " @@\n".toList then some (old,new) else none

-- A file with a patch half applied: how many old lines are behind, which ones are
-- ahead, the new lines so far, and how many old and new lines the hunk at work has
-- yet to show.
structure Work where
  behind : Nat
  ahead : List Text
  made : List Text
  oldDue : Nat
  newDue : Nat
deriving DecidableEq

namespace Work

def begin (lines : List Text) : Work := ⟨0,lines,[],0,0⟩

def pass? (work : Work) (line : Text) : Option Work :=
  match work.ahead,work.oldDue with
  | next :: ahead,due + 1 =>
    if next = line then some { work with behind := work.behind + 1,ahead := ahead,oldDue := due }
    else none
  | _,_ => none

def put? (work : Work) (line : Text) : Option Work :=
  match work.newDue with
  | due + 1 => some { work with made := work.made ++ [line],newDue := due }
  | 0 => none

-- A hunk begins when the one before it is complete. The lines up to its place are
-- kept, and its place in the new file has to be where these end.
def enter? (work : Work) (old new : Extent) : Option Work :=
  let kept := old.start - work.behind
  if work.oldDue = 0 ∧ work.newDue = 0 ∧ work.behind ≤ old.start ∧ kept ≤ work.ahead.length ∧
      new.start = work.made.length + kept then
    some ⟨old.start,work.ahead.drop kept,work.made ++ work.ahead.take kept,old.size,new.size⟩
  else none

def step? (work : Work) (entry : Text) : Option Work :=
  match entry with
  | ' ' :: line => (work.pass? line).bind fun work => work.put? line
  | '-' :: line => work.pass? line
  | '+' :: line => work.put? line
  | _ => (header? entry).bind fun (old,new) => work.enter? old new

def run? (work : Work) (entries : List Text) : Option Work := entries.foldlM step? work

def close? (work : Work) : Option (List Text) :=
  if work.oldDue = 0 ∧ work.newDue = 0 then some (work.made ++ work.ahead) else none

end Work

def patched? (entries lines : List Text) : Option (List Text) :=
  ((Work.begin lines).run? entries).bind Work.close?

def oldName (label : Text) : Text := "--- a/".toList ++ label ++ ['\n']

def newName (label : Text) : Text := "+++ b/".toList ++ label ++ ['\n']

def lines (text : Text) : List Text := (Line.split text).map Line.full

theorem number?_decimal (number : Nat) {rest : Text}
    (stops : ∀ c ∈ rest.head?, c.isDigit = false) :
    number? (decimal number ++ rest) = some (number,rest) := by
  have digits : ∀ c ∈ decimal number, c.isDigit = true := fun c member =>
    Nat.isDigit_of_mem_toDigits (by decide) (by decide) member
  have taken : rest.takeWhile Char.isDigit = [] := by
    cases rest with
    | nil => rfl
    | cons c rest => exact List.takeWhile_cons_of_neg (by simp [stops c rfl])
  have dropped : rest.dropWhile Char.isDigit = rest := by
    cases rest with
    | nil => rfl
    | cons c rest => exact List.dropWhile_cons_of_neg (by simp [stops c rfl])
  unfold number?
  rw [List.takeWhile_append_of_pos digits,List.dropWhile_append_of_pos digits,taken,dropped,
    List.append_nil]
  split
  · rename_i none
    exact absurd none Nat.toDigits_ne_nil
  · rw [decimal,Nat.ofDigitChars_toDigits (by decide) (by decide)]

theorem range?_rangeText (start size : Nat) {rest : Text}
    (stops : ∀ c ∈ rest.head?, c.isDigit = false ∧ c ≠ ',') :
    range? (rangeText start size ++ rest) = some (⟨start,size⟩,rest) := by
  have apart : ∀ c ∈ rest.head?, c.isDigit = false := fun c member => (stops c member).1
  have comma : ∀ c ∈ (',' :: (decimal size ++ rest)).head?, c.isDigit = false := by simp
  unfold range? rangeText
  split
  · rename_i single
    rw [number?_decimal _ apart,Option.bind_some,single]
    cases rest with
    | nil => rfl
    | cons c rest =>
      have other : c ≠ ',' := (stops c rfl).2
      simp [extent?,other]
  · rw [List.append_assoc,List.append_assoc,List.singleton_append,number?_decimal _ comma,
      Option.bind_some]
    simp only [number?_decimal _ apart,Option.bind_some]
    cases size with
    | zero => rfl
    | succ size => rfl

theorem header?_header (hunk : Hunk α) :
    header? (header hunk) = some (⟨hunk.oldAt,hunk.oldSize⟩,⟨hunk.newAt,hunk.newSize⟩) := by
  unfold header? header
  simp only [List.append_assoc,after?_append,Option.bind_some]
  rw [range?_rangeText _ _ (by simp)]
  simp only [after?_append,Option.bind_some]
  rw [range?_rangeText _ _ (by simp)]
  rfl

variable {behind oldDue newDue : Nat} {ahead made old new : List Text}

theorem Work.run?_append (work : Work) (first second : List Text) :
    work.run? (first ++ second) = (work.run? first).bind fun work => work.run? second :=
  List.foldlM_append

theorem Work.run?_kept (lines : List Text) :
    run? ⟨behind,lines ++ ahead,made,oldDue + lines.length,newDue + lines.length⟩
      (marked ' ' lines) = some ⟨behind + lines.length,ahead,made ++ lines,oldDue,newDue⟩ := by
  induction lines generalizing behind made with
  | nil => simp [run?,marked]
  | cons line lines ih =>
    have rest := @ih (behind + 1) (made ++ [line])
    simpa [run?,marked,step?,pass?,put?,← Nat.add_assoc,Nat.add_right_comm] using rest

theorem Work.run?_removed (lines : List Text) :
    run? ⟨behind,lines ++ ahead,made,oldDue + lines.length,newDue⟩ (marked '-' lines) =
      some ⟨behind + lines.length,ahead,made,oldDue,newDue⟩ := by
  induction lines generalizing behind with
  | nil => rfl
  | cons line lines ih =>
    have rest := @ih (behind + 1)
    simpa [run?,marked,step?,pass?,← Nat.add_assoc,Nat.add_right_comm] using rest

theorem Work.run?_added (lines : List Text) :
    run? ⟨behind,ahead,made,oldDue,newDue + lines.length⟩ (marked '+' lines) =
      some ⟨behind,ahead,made ++ lines,oldDue,newDue⟩ := by
  induction lines generalizing made with
  | nil => simp [run?,marked]
  | cons line lines ih =>
    have rest := @ih (made ++ [line])
    simpa [run?,marked,step?,put?,← Nat.add_assoc] using rest

theorem Work.run?_chunk (chunk : Chunk Text) :
    run? ⟨behind,chunk.old ++ ahead,made,oldDue + chunk.old.length,newDue + chunk.new.length⟩
      (chunkEntries chunk) =
        some ⟨behind + chunk.old.length,ahead,made ++ chunk.new,oldDue,newDue⟩ := by
  cases chunk with
  | same lines => exact run?_kept lines
  | change removed added =>
    dsimp only [chunkEntries,Chunk.old,Chunk.new]
    rw [run?_append,run?_removed,Option.bind_some,run?_added]

theorem Work.run?_chunks (chunks : List (Chunk Text)) :
    run? ⟨behind,chunks.flatMap Chunk.old ++ ahead,made,(chunks.flatMap Chunk.old).length,
      (chunks.flatMap Chunk.new).length⟩ (chunks.flatMap chunkEntries) =
        some ⟨behind + (chunks.flatMap Chunk.old).length,ahead,
          made ++ chunks.flatMap Chunk.new,0,0⟩ := by
  induction chunks generalizing behind made with
  | nil => simp [run?]
  | cons chunk chunks ih =>
    simp only [List.flatMap_cons,List.length_append,List.append_assoc]
    rw [run?_append,Nat.add_comm chunk.old.length,Nat.add_comm chunk.new.length,run?_chunk,
      Option.bind_some,ih,Nat.add_assoc,List.append_assoc,Nat.add_comm chunk.old.length]

theorem Work.run?_hunk {hunk : Hunk Text} {gap : List Text}
    (oldAt : hunk.oldAt = behind + gap.length) (newAt : hunk.newAt = made.length + gap.length) :
    run? ⟨behind,gap ++ (hunk.old ++ ahead),made,0,0⟩ (hunkEntries hunk) =
      some ⟨hunk.oldAt + hunk.oldSize,ahead,made ++ gap ++ hunk.new,0,0⟩ := by
  have entered : step? ⟨behind,gap ++ (hunk.old ++ ahead),made,0,0⟩ (header hunk) =
      some ⟨hunk.oldAt,hunk.old ++ ahead,made ++ gap,hunk.oldSize,hunk.newSize⟩ := by
    have read : step? ⟨behind,gap ++ (hunk.old ++ ahead),made,0,0⟩ (header hunk) =
        (header? (header hunk)).bind fun (old,new) =>
          enter? ⟨behind,gap ++ (hunk.old ++ ahead),made,0,0⟩ old new := rfl
    have kept : hunk.oldAt - behind = gap.length := by rw [oldAt,Nat.add_sub_cancel_left]
    have fits : behind ≤ hunk.oldAt := by rw [oldAt]; exact Nat.le_add_right _ _
    rw [read,header?_header,Option.bind_some]
    dsimp only [enter?]
    rw [kept,if_pos ⟨rfl,rfl,fits,by simp,newAt⟩,List.drop_left,List.take_left]
  have onward : run? ⟨hunk.oldAt,hunk.old ++ ahead,made ++ gap,hunk.oldSize,hunk.newSize⟩
      (hunk.chunks.flatMap chunkEntries) =
        some ⟨hunk.oldAt + hunk.oldSize,ahead,made ++ gap ++ hunk.new,0,0⟩ :=
    run?_chunks hunk.chunks
  rw [hunkEntries,run?,List.foldlM_cons,entered]
  exact onward

theorem Work.run?_hunks {hunks : List (Hunk Text)}
    (leads : Leads behind made.length hunks old new) :
    ((run? ⟨behind,old,made,0,0⟩ (hunks.flatMap hunkEntries)).bind close?) =
      some (made ++ new) := by
  generalize place : made.length = j at leads
  induction leads generalizing made with
  | rest lines => simp [run?,close?]
  | @hunk i j hunk later old new gap oldAt newAt onward ih =>
    subst place
    rw [List.flatMap_cons,run?_append,run?_hunk oldAt newAt,Option.bind_some]
    have size : hunk.newSize = hunk.new.length := rfl
    rw [@ih (made ++ gap ++ hunk.new)
      (by rw [List.length_append,List.length_append,newAt,size])]
    simp only [List.append_assoc]

theorem flatten_lines (text : Text) : (lines text).flatten = text := by
  rw [lines,← List.flatMap_def,Line.flatMap_split]

end Plainmark.Patch

namespace Plainmark.Diff
open Text Patch

theorem unified_eq (old new label : Text) (context : Nat) :
    unified old new label context =
      if old = new then []
      else oldName label :: newName label ::
        (hunks context (chunks (lines old) (lines new))).flatMap hunkEntries := by
  have none_iff : hunks context (chunks (lines old) (lines new)) = [] ↔ old = new := by
    rw [hunks_eq_nil_iff,← Bool.not_eq_true,chunks_changed_iff,not_not]
    constructor
    · intro same
      by_contra differ
      exact splitLines_injective differ same
    · intro same
      rw [same]
  unfold unified
  dsimp only
  change (if (hunks context (chunks (lines old) (lines new))).isEmpty then _ else _) = _
  by_cases same : old = new
  · rw [if_pos same,if_pos (List.isEmpty_iff.mpr (none_iff.mpr same))]
  · rw [if_neg same,if_neg (fun none => same (none_iff.mp (List.isEmpty_iff.mp none)))]
    rfl

theorem hunks_apply (old new : Text) (context : Nat) :
    patched? ((hunks context (chunks (lines old) (lines new))).flatMap hunkEntries) (lines old) =
      some (lines new) := by
  have leads := hunks_lead context (chunks (lines old) (lines new))
  rw [chunks_old,chunks_new] at leads
  have onward : Leads 0 ([] : List Text).length (hunks context (chunks (lines old) (lines new)))
      (lines old) (lines new) := leads
  exact Work.run?_hunks onward

-- A diff is a correct patch: it has no entry exactly when nothing changes, and
-- otherwise the hunks behind its two names turn the old lines into the new ones.
theorem unified_applies (old new label : Text) (context : Nat) :
    (unified old new label context = [] ↔ old = new) ∧
      (old = new ∨ ∃ entries,
        unified old new label context = oldName label :: newName label :: entries ∧
          patched? entries (lines old) = some (lines new)) ∧
      (lines new).flatten = new := by
  refine ⟨?_,?_,flatten_lines new⟩
  · rw [unified_eq]
    by_cases same : old = new
    · simp [same]
    · simp [same]
  · by_cases same : old = new
    · exact .inl same
    · rw [unified_eq,if_neg same]
      exact .inr ⟨_,rfl,hunks_apply old new context⟩

end Plainmark.Diff
