import Plainmark.Diff.Alignment
import Plainmark.Text.Line

namespace Plainmark.Diff
open Text

-- Chunks that are shown together, and how many old and new lines precede them.
structure Hunk (α : Type) where
  oldAt : Nat
  newAt : Nat
  chunks : List (Chunk α)

structure Counts where
  added : Nat
  deleted : Nat
deriving DecidableEq

namespace Chunk

def isChange : Chunk α → Bool
  | .same _ => false
  | .change .. => true

end Chunk

namespace Hunk

def prepend (chunk : Chunk α) (hunk : Hunk α) : Hunk α :=
  ⟨hunk.oldAt - chunk.old.length,hunk.newAt - chunk.new.length,chunk :: hunk.chunks⟩

def oldSize (hunk : Hunk α) : Nat := (hunk.chunks.flatMap Chunk.old).length

def newSize (hunk : Hunk α) : Nat := (hunk.chunks.flatMap Chunk.new).length

end Hunk

-- Chunks are cut into hunks inside common pieces that are longer than the
-- context on both sides. The first hunk is the one still open to the left.
def cut (context : Nat) : Nat → Nat → List (Chunk α) → Hunk α × List (Hunk α)
  | oldAt,newAt,[] => (⟨oldAt,newAt,[]⟩,[])
  | oldAt,newAt,chunk :: chunks =>
    let (next,later) := cut context (oldAt + chunk.old.length) (newAt + chunk.new.length) chunks
    match chunk with
    | .same items =>
      if 2 * context < items.length then
        (⟨oldAt,newAt,[.same (items.take context)]⟩,
          next.prepend (.same (items.drop (items.length - context))) :: later)
      else (next.prepend chunk,later)
    | .change .. => (next.prepend chunk,later)

def trimBack (context : Nat) : List (Chunk α) → List (Chunk α)
  | [] => []
  | [.same items] => [.same (items.take context)]
  | chunk :: chunks => chunk :: trimBack context chunks

def trimFront (context : Nat) : List (Chunk α) → Nat × List (Chunk α)
  | .same items :: rest =>
    (items.length - context,.same (items.drop (items.length - context)) :: rest)
  | chunks => (0,chunks)

def pieces (context skipped : Nat) (chunks : List (Chunk α)) : List (Hunk α) :=
  let (first,later) := cut context skipped skipped (trimBack context chunks)
  first :: later

def hunks (context : Nat) (chunks : List (Chunk α)) : List (Hunk α) :=
  let (skipped,shown) := trimFront context chunks
  (pieces context skipped shown).filter fun hunk => hunk.chunks.any Chunk.isChange

theorem pieces_eq (context skipped : Nat) (chunks : List (Chunk α)) :
    pieces context skipped chunks =
      (cut context skipped skipped (trimBack context chunks)).1 ::
        (cut context skipped skipped (trimBack context chunks)).2 := rfl

theorem hunks_eq (context : Nat) (chunks : List (Chunk α)) : hunks context chunks =
    (pieces context (trimFront context chunks).1 (trimFront context chunks).2).filter
      fun hunk => hunk.chunks.any Chunk.isChange := rfl

-- Lines are numbered from one. A single line is given by its number, an empty
-- range by the number of the line before it.
def rangeText (start size : Nat) : Text :=
  if size = 1 then decimal (start + 1)
  else decimal (if size = 0 then start else start + 1) ++ [','] ++ decimal size

def header (hunk : Hunk α) : Text :=
  "@@ -".toList ++ rangeText hunk.oldAt hunk.oldSize ++ " +".toList ++
    rangeText hunk.newAt hunk.newSize ++ " @@\n".toList

def marked (mark : Char) (lines : List Text) : List Text := lines.map (mark :: ·)

def chunkEntries : Chunk Text → List Text
  | .same lines => marked ' ' lines
  | .change removed added => marked '-' removed ++ marked '+' added

def hunkEntries (hunk : Hunk Text) : List Text :=
  header hunk :: hunk.chunks.flatMap chunkEntries

def unified (old new label : Text) (context : Nat) : List Text :=
  let shown := hunks context (chunks ((Line.split old).map Line.full) ((Line.split new).map Line.full))
  if shown.isEmpty then []
  else
    ("--- a/".toList ++ label ++ ['\n']) :: ("+++ b/".toList ++ label ++ ['\n']) ::
      shown.flatMap hunkEntries

def counts (old new : Text) : Counts :=
  let parts := chunks ((Line.split old).map Line.body) ((Line.split new).map Line.body)
  ⟨(parts.flatMap Chunk.added).length,(parts.flatMap Chunk.removed).length⟩

end Plainmark.Diff
