import Mathlib.Data.List.Chain
import Mathlib.Data.List.Flatten
import Plainmark.Proofs.Lines

namespace Plainmark.Diff

def Chunk.Filled : Chunk α → Prop
  | .same items => items ≠ []
  | .change removed added => removed ≠ [] ∨ added ≠ []

structure Tidy (chunks : List (Chunk α)) : Prop where
  turns : chunks.IsChain fun one two => one.isChange ≠ two.isChange
  filled : ∀ chunk ∈ chunks, chunk.Filled

structure Rough (chunks : List (Chunk α)) : Prop where
  apart : chunks.IsChain fun one two => one.isChange = false ∨ two.isChange = false
  filled : ∀ items, .same items ∈ chunks → items ≠ []

theorem Rough.join {front back : List (Chunk α)} {items : List α} (one : Rough front)
    (two : Rough back) (filled : items ≠ []) : Rough (front ++ .same items :: back) := by
  constructor
  · refine List.isChain_append.mpr ⟨one.apart,?_,?_⟩
    · exact List.isChain_cons.mpr ⟨fun _ _ => .inl rfl,two.apart⟩
    · intro last _ first head
      obtain rfl := Option.some.inj head
      exact .inr rfl
  · intro more member
    rcases List.mem_append.mp member with inFront | later
    · exact one.filled more inFront
    · rcases List.mem_cons.mp later with same | inBack
      · obtain rfl := Chunk.same.inj same
        exact filled
      · exact two.filled more inBack

theorem align_rough [DecidableEq α] (crowded old new : List α) :
    Rough (align crowded old new) := by
  fun_induction align crowded old new with
  | case1 old new run nothing =>
    refine ⟨List.isChain_singleton _,?_⟩
    intro items member
    cases List.mem_singleton.mp member
  | case2 old new run found before after =>
    refine before.join after ?_
    have inside := (longest_bounds crowded old new).1
    intro none
    have size := congrArg List.length none
    rw [List.length_take,List.length_drop,List.length_nil] at size
    change ¬(longest crowded old new).size = 0 at found
    change min (longest crowded old new).size (old.length - (longest crowded old new).oldAt) = 0
      at size
    omega

theorem tidy_same (items : List α) (chunks : List (Chunk α)) : ∃ more rest,
    tidy (.same items :: chunks) = .same (items ++ more) :: rest ∧
      ((more = [] ∧ rest = tidy chunks ∧ ∀ chunk ∈ rest.head?, chunk.isChange = true) ∨
        tidy chunks = .same more :: rest) := by
  rw [tidy]
  split
  · rename_i more rest shape
    exact ⟨more,rest,rfl,.inr shape⟩
  · rename_i other
    refine ⟨[],tidy chunks,by rw [List.append_nil],.inl ⟨rfl,rfl,?_⟩⟩
    intro chunk head
    cases chunk with
    | change removed added => rfl
    | same more =>
      obtain ⟨rest,shape⟩ := List.head?_eq_some_iff.mp head
      exact absurd shape (other more rest)

theorem Rough.tidied {chunks : List (Chunk α)} (rough : Rough chunks) : Tidy (tidy chunks) := by
  induction chunks with
  | nil => exact ⟨.nil,fun _ member => absurd member List.not_mem_nil⟩
  | cons chunk chunks ih =>
    have rest := ih ⟨rough.apart.tail,fun items member =>
      rough.filled items (List.mem_cons_of_mem _ member)⟩
    cases chunk with
    | change removed added =>
      rw [tidy]
      split
      · exact rest
      · rename_i filled
        constructor
        · refine List.isChain_cons.mpr ⟨fun first head => ?_,rest.turns⟩
          cases chunks with
          | nil => cases head
          | cons next chunks =>
            cases next with
            | change _ _ =>
              rcases (List.isChain_cons_cons.mp rough.apart).1 with absurd | absurd <;> cases absurd
            | same items =>
              obtain ⟨more,later,shape,_⟩ := tidy_same items chunks
              rw [shape] at head
              obtain rfl := Option.some.inj head
              exact fun turned => by cases turned
        · intro chunk member
          rcases List.mem_cons.mp member with rfl | later
          · simpa [Chunk.Filled,← not_and_or] using filled
          · exact rest.filled chunk later
    | same items =>
      have filled := rough.filled items List.mem_cons_self
      obtain ⟨more,later,shape,⟨rfl,rfl,changes⟩ | joined⟩ := tidy_same items chunks
      · rw [shape]
        constructor
        · refine List.isChain_cons.mpr ⟨fun first head => ?_,rest.turns⟩
          rw [changes first head]
          exact fun turned => by cases turned
        · intro chunk member
          rcases List.mem_cons.mp member with rfl | later
          · rw [List.append_nil]
            exact filled
          · exact rest.filled chunk later
      · rw [joined] at rest
        rw [shape]
        constructor
        · exact List.isChain_cons.mpr (List.isChain_cons.mp rest.turns)
        · intro chunk member
          rcases List.mem_cons.mp member with rfl | later
          · exact List.append_ne_nil_of_left_ne_nil filled more
          · exact rest.filled chunk (List.mem_cons_of_mem _ later)

theorem chunks_tidy [DecidableEq α] (old new : List α) : Tidy (chunks old new) :=
  (align_rough (crowd new) old new).tidied

theorem Tidy.last_change {chunks : List (Chunk α)} (tidy : Tidy chunks)
    (changed : chunks.any Chunk.isChange = true) : ∃ front removed added tail,
      chunks = front ++ .change removed added :: tail ∧
        (tail = [] ∨ ∃ items, tail = [.same items]) := by
  rcases List.eq_nil_or_concat chunks with rfl | ⟨front,last,rfl⟩
  · cases changed
  · rw [List.concat_eq_append] at *
    cases last with
    | change removed added => exact ⟨front,removed,added,[],rfl,.inl rfl⟩
    | same items =>
      rcases List.eq_nil_or_concat front with rfl | ⟨front,next,rfl⟩
      · cases changed
      · rw [List.concat_eq_append] at *
        cases next with
        | change removed added =>
          exact ⟨front,removed,added,[.same items],by rw [List.append_assoc]; rfl,.inr ⟨_,rfl⟩⟩
        | same more =>
          have turn := (List.isChain_append.mp tidy.turns).2.2 (.same more)
            (by rw [List.getLast?_concat]; exact rfl) (.same items) rfl
          exact absurd rfl turn

theorem cut_short {context : Nat} {chunks : List (Chunk α)}
    (short : ∀ items, .same items ∈ chunks → items.length ≤ 2 * context) (i j : Nat) :
    (cut context i j chunks).1.chunks = chunks ∧ (cut context i j chunks).2 = [] := by
  induction chunks generalizing i j with
  | nil => exact ⟨rfl,rfl⟩
  | cons chunk chunks ih =>
    obtain ⟨kept,alone⟩ := ih (fun items member => short items (List.mem_cons_of_mem _ member))
      (i + chunk.old.length) (j + chunk.new.length)
    cases chunk with
    | change removed added => exact ⟨congrArg _ kept,alone⟩
    | same items =>
      have whole : ¬2 * context < items.length :=
        Nat.not_lt_of_le (short items List.mem_cons_self)
      simp only [cut]
      rw [if_neg whole]
      exact ⟨congrArg _ kept,alone⟩

theorem cut_last {context : Nat} (i j : Nat) (front : List (Chunk α)) (removed added : List α)
    {tail : List (Chunk α)}
    (short : ∀ items, .same items ∈ tail → items.length ≤ 2 * context) :
    ∃ earlier hunk inner,
      (cut context i j (front ++ .change removed added :: tail)).1 ::
        (cut context i j (front ++ .change removed added :: tail)).2 = earlier ++ [hunk] ∧
      hunk.chunks = inner ++ .change removed added :: tail := by
  induction front generalizing i j with
  | nil =>
    obtain ⟨kept,alone⟩ := cut_short short (i + removed.length) (j + added.length)
    exact ⟨[],(cut context (i + removed.length) (j + added.length) tail).1.prepend
      (.change removed added),[],congrArg (_ :: ·) alone,congrArg (_ :: ·) kept⟩
  | cons chunk front ih =>
    obtain ⟨earlier,hunk,inner,whole,ends⟩ := ih (i + chunk.old.length) (j + chunk.new.length)
    -- What is put in front of the first hunk, or cut off before it, leaves the last one.
    have behind : ∀ (first : Chunk α) (start : List (Hunk α)), ∃ earlier hunk inner,
        start ++ (cut context (i + chunk.old.length) (j + chunk.new.length)
          (front ++ .change removed added :: tail)).1.prepend first ::
          (cut context (i + chunk.old.length) (j + chunk.new.length)
            (front ++ .change removed added :: tail)).2 = earlier ++ [hunk] ∧
          hunk.chunks = inner ++ .change removed added :: tail := by
      intro first start
      cases earlier with
      | nil =>
        obtain ⟨same,alone⟩ := List.cons.inj whole
        rw [same,alone]
        exact ⟨start,hunk.prepend first,first :: inner,rfl,congrArg (first :: ·) ends⟩
      | cons next earlier =>
        obtain ⟨same,later⟩ := List.cons.inj whole
        rw [same,later]
        exact ⟨start ++ next.prepend first :: earlier,hunk,inner,by simp,ends⟩
    cases chunk with
    | change _ _ => exact behind _ []
    | same items =>
      rw [List.cons_append]
      simp only [cut]
      split
      · exact behind _ [⟨i,j,[.same (items.take context)]⟩]
      · exact behind _ []

theorem trimBack_append (context : Nat) (front : List (Chunk α)) (removed added : List α)
    (tail : List (Chunk α)) :
    trimBack context (front ++ .change removed added :: tail) =
      front ++ .change removed added :: trimBack context tail := by
  induction front with
  | nil => exact trimBack.eq_3 _ _ _ (by simp)
  | cons chunk front ih =>
    rw [List.cons_append,trimBack.eq_3 _ _ _ (by simp),ih,List.cons_append]

theorem trimBack_short (context : Nat) {tail : List (Chunk α)}
    (ends : tail = [] ∨ ∃ items, tail = [.same items]) :
    ∀ items, .same items ∈ trimBack context tail → items.length ≤ 2 * context := by
  rcases ends with rfl | ⟨items,rfl⟩
  · exact fun _ member => absurd member List.not_mem_nil
  · intro shown member
    obtain rfl := Chunk.same.inj (List.mem_singleton.mp member)
    rw [List.length_take]
    omega

theorem trimFront_append (context : Nat) (front : List (Chunk α)) (removed added : List α)
    (tail : List (Chunk α)) : ∃ shown,
      (trimFront context (front ++ .change removed added :: tail)).2 =
        shown ++ .change removed added :: tail := by
  cases front with
  | nil => exact ⟨[],rfl⟩
  | cons chunk front =>
    cases chunk with
    | change out put => exact ⟨.change out put :: front,rfl⟩
    | same items => exact ⟨.same (items.drop (items.length - context)) :: front,rfl⟩

theorem hunks_last (context : Nat) (front : List (Chunk α)) (removed added : List α)
    {tail : List (Chunk α)} (ends : tail = [] ∨ ∃ items, tail = [.same items]) :
    ∃ earlier hunk inner,
      hunks context (front ++ .change removed added :: tail) = earlier ++ [hunk] ∧
        hunk.chunks = inner ++ .change removed added :: trimBack context tail := by
  obtain ⟨shown,rest⟩ := trimFront_append context front removed added tail
  rw [hunks_eq,rest,pieces_eq,trimBack_append]
  generalize (trimFront context (front ++ .change removed added :: tail)).1 = skipped
  obtain ⟨earlier,hunk,inner,whole,last⟩ :=
    cut_last skipped skipped shown removed added (trimBack_short context ends)
  have changes : hunk.chunks.any Chunk.isChange = true := by
    rw [last,List.any_append,List.any_cons]
    exact Bool.or_true _
  refine ⟨earlier.filter fun hunk => hunk.chunks.any Chunk.isChange,hunk,inner,?_,last⟩
  rw [whole,List.filter_append]
  simp only [List.filter_cons,changes,if_true,List.filter_nil]

end Plainmark.Diff

namespace Plainmark.Diff
open Text Line Patch

def Hunk.body (hunk : Hunk Text) : List Text := hunk.chunks.flatMap chunkEntries

theorem cut_entries (context i j : Nat) (chunks : List (Chunk Text)) :
    (((cut context i j chunks).1 :: (cut context i j chunks).2).flatMap Hunk.body).Sublist
      (chunks.flatMap chunkEntries) := by
  induction chunks generalizing i j with
  | nil => exact List.Sublist.refl []
  | cons chunk chunks ih =>
    have rest := ih (i + chunk.old.length) (j + chunk.new.length)
    rw [List.flatMap_cons] at rest
    have onward : ∀ (first : Chunk Text),
        (((cut context (i + chunk.old.length) (j + chunk.new.length) chunks).1.prepend first ::
          (cut context (i + chunk.old.length) (j + chunk.new.length) chunks).2).flatMap
            Hunk.body).Sublist (chunkEntries first ++ chunks.flatMap chunkEntries) := by
      intro first
      rw [List.flatMap_cons,Hunk.body,Hunk.prepend,List.flatMap_cons,List.append_assoc]
      exact (List.Sublist.refl _).append rest
    rw [List.flatMap_cons]
    cases chunk with
    | change removed added => exact onward _
    | same items =>
      simp only [cut]
      split
      · rename_i long
        obtain ⟨hidden,whole⟩ := front_hidden_back long
        have shown : (marked ' ' (items.take context) ++
            marked ' ' (items.drop (items.length - context))).Sublist (marked ' ' items) := by
          have pieces : marked ' ' items = marked ' ' (items.take context) ++
              (marked ' ' hidden ++ marked ' ' (items.drop (items.length - context))) := by
            rw [marked,marked,marked,marked,← List.map_append,← List.map_append,← whole]
          rw [pieces]
          exact (List.Sublist.refl _).append (List.sublist_append_right _ _)
        have both := onward (.same (items.drop (items.length - context)))
        rw [List.flatMap_cons]
        refine List.Sublist.trans ((List.Sublist.refl _).append both) ?_
        simp only [Hunk.body,List.flatMap_singleton,chunkEntries]
        rw [← List.append_assoc]
        exact shown.append (List.Sublist.refl _)
      · exact onward _

theorem trimBack_entries (context : Nat) (chunks : List (Chunk Text)) :
    ((trimBack context chunks).flatMap chunkEntries).Sublist
      (chunks.flatMap chunkEntries) := by
  fun_induction trimBack context chunks with
  | case1 => exact List.Sublist.refl []
  | case2 items =>
    simp only [List.flatMap_singleton,chunkEntries]
    exact (List.take_sublist _ _).map _
  | case3 chunk chunks other ih =>
    rw [List.flatMap_cons,List.flatMap_cons]
    exact (List.Sublist.refl _).append ih

theorem trimFront_entries (context : Nat) (chunks : List (Chunk Text)) :
    ((trimFront context chunks).2.flatMap chunkEntries).Sublist (chunks.flatMap chunkEntries) := by
  unfold trimFront
  split
  · rw [List.flatMap_cons,List.flatMap_cons]
    exact ((List.drop_sublist _ _).map _).append (List.Sublist.refl _)
  · exact List.Sublist.refl _

theorem hunks_entries (context : Nat) (chunks : List (Chunk Text)) :
    ((hunks context chunks).flatMap Hunk.body).Sublist (chunks.flatMap chunkEntries) := by
  rw [hunks_eq]
  exact (List.filter_sublist.flatMap _).trans
    ((cut_entries context _ _ _).trans
      ((trimBack_entries context _).trans (trimFront_entries context chunks)))

theorem ended_marked {mark : Char} (inner : isBreak mark = false) {lines : List Text}
    (ends : ∀ line ∈ lines, ended line = true) : ∀ entry ∈ marked mark lines, ended entry = true := by
  intro entry member
  obtain ⟨line,listed,rfl⟩ := List.mem_map.mp member
  rw [ended_cons inner]
  exact ends line listed

theorem parted_marked {mark : Char} (inner : isBreak mark = false) {lines : List Text}
    (parted : Parted lines) : Parted (marked mark lines) :=
  List.pairwise_map.mpr (parted.imp fun {line} {_} broken => by rw [ended_cons inner,broken])

theorem chunkEntries_ended {chunk : Chunk Text} (olds : ∀ line ∈ chunk.old, ended line = true)
    (news : ∀ line ∈ chunk.new, ended line = true) :
    ∀ entry ∈ chunkEntries chunk, ended entry = true := by
  cases chunk with
  | same items => exact ended_marked rfl olds
  | change removed added =>
    intro entry member
    rcases List.mem_append.mp member with out | put
    · exact ended_marked rfl olds entry out
    · exact ended_marked rfl news entry put

theorem ended_header (hunk : Hunk α) : ended (header hunk) = true := by
  change ended (_ ++ " @@\n".toList) = true
  exact ended_append (by decide)

theorem parted_of_ended {texts : List Text} (ends : ∀ text ∈ texts, ended text = true) :
    Parted texts :=
  List.pairwise_of_forall_mem_list fun text member _ _ => ends text member

-- A chunk with another one behind it shows no open line: the lines of a common piece,
-- or of a change in front of one, all have a line behind them.
theorem Tidy.ended_front {chunk next : Chunk Text} {rest : List (Chunk Text)}
    (tidy : Tidy (chunk :: next :: rest))
    (olds : Parted ((chunk :: next :: rest).flatMap Chunk.old))
    (news : Parted ((chunk :: next :: rest).flatMap Chunk.new)) :
    ∀ entry ∈ chunkEntries chunk, ended entry = true := by
  have inOld : next.old ≠ [] → ∀ line ∈ chunk.old, ended line = true := by
    intro some line member
    obtain ⟨other,more⟩ := List.exists_mem_of_ne_nil _ some
    exact (List.pairwise_append.mp olds).2.2 line member other (List.mem_append_left _ more)
  have inNew : next.new ≠ [] → ∀ line ∈ chunk.new, ended line = true := by
    intro some line member
    obtain ⟨other,more⟩ := List.exists_mem_of_ne_nil _ some
    exact (List.pairwise_append.mp news).2.2 line member other (List.mem_append_left _ more)
  have turn := (List.isChain_cons_cons.mp tidy.turns).1
  have filled := tidy.filled next (List.mem_cons_of_mem _ List.mem_cons_self)
  cases next with
  | same items => exact chunkEntries_ended (inOld filled) (inNew filled)
  | change removed added =>
    cases chunk with
    | change _ _ => exact absurd rfl turn
    | same items =>
      rcases filled with out | put
      · exact chunkEntries_ended (inOld out) (inOld out)
      · exact chunkEntries_ended (inNew put) (inNew put)

theorem Tidy.parted_entries {chunks : List (Chunk Text)} (tidy : Tidy chunks)
    (olds : Parted (chunks.flatMap Chunk.old)) (news : Parted (chunks.flatMap Chunk.new))
    (clean : ∀ removed added, chunks.getLast? = some (.change removed added) → added ≠ [] →
      ∀ line ∈ removed, ended line = true) : Parted (chunks.flatMap chunkEntries) := by
  induction chunks with
  | nil => exact .nil
  | cons chunk chunks ih =>
    cases chunks with
    | nil =>
      rw [List.flatMap_singleton] at olds news ⊢
      cases chunk with
      | same items => exact parted_marked rfl olds
      | change removed added =>
        refine List.pairwise_append.mpr ⟨parted_marked rfl olds,parted_marked rfl news,?_⟩
        intro entry out other put
        have filled : added ≠ [] := by
          rintro rfl
          cases put
        exact ended_marked rfl (clean removed added rfl filled) entry out
    | cons next rest =>
      have ends := tidy.ended_front olds news
      have onward := ih ⟨tidy.turns.tail,fun other member =>
          tidy.filled other (List.mem_cons_of_mem _ member)⟩
        (List.pairwise_append.mp olds).2.1 (List.pairwise_append.mp news).2.1
        fun removed added last => clean removed added (by rw [List.getLast?_cons_cons,last])
      rw [List.flatMap_cons]
      exact List.pairwise_append.mpr ⟨parted_of_ended ends,onward,fun entry member _ _ =>
        ends entry member⟩

theorem parted_hunkEntries {hunks : List (Hunk Text)} (filled : ∀ hunk ∈ hunks, hunk.body ≠ [])
    (parted : Parted (hunks.flatMap Hunk.body)) : Parted (hunks.flatMap hunkEntries) := by
  induction hunks with
  | nil => exact .nil
  | cons hunk hunks ih =>
    rw [List.flatMap_cons] at parted ⊢
    obtain ⟨here,later,across⟩ := List.pairwise_append.mp parted
    have rest := ih (fun other member => filled other (List.mem_cons_of_mem _ member)) later
    refine .cons (fun _ _ => ended_header hunk) (List.pairwise_append.mpr ⟨here,rest,?_⟩)
    intro entry member other shown
    cases hunks with
    | nil => cases shown
    | cons next hunks =>
      obtain ⟨line,inNext⟩ := List.exists_mem_of_ne_nil _
        (filled next (List.mem_cons_of_mem _ List.mem_cons_self))
      exact across entry member line (List.mem_append_left _ inNext)

theorem cut_shows {context i j : Nat} {chunks : List (Chunk α)} {hunk : Hunk α}
    {removed added : List α}
    (member : hunk ∈ (cut context i j chunks).1 :: (cut context i j chunks).2)
    (shown : .change removed added ∈ hunk.chunks) : .change removed added ∈ chunks := by
  induction chunks generalizing i j hunk with
  | nil =>
    rw [List.mem_singleton.mp member] at shown
    cases shown
  | cons chunk chunks ih =>
    have onward : ∀ first : Chunk α,
        hunk ∈ (cut context (i + chunk.old.length) (j + chunk.new.length) chunks).1.prepend first ::
          (cut context (i + chunk.old.length) (j + chunk.new.length) chunks).2 →
        .change removed added = first ∨ .change removed added ∈ chunks := by
      intro first inside
      rcases List.mem_cons.mp inside with rfl | later
      · exact (List.mem_cons.mp shown).imp_right fun behind => ih List.mem_cons_self behind
      · exact .inr (ih (List.mem_cons_of_mem _ later) shown)
    rw [List.mem_cons]
    cases chunk with
    | change _ _ => exact onward _ member
    | same items =>
      simp only [cut] at member
      split at member
      · rcases List.mem_cons.mp member with rfl | later
        · cases List.mem_singleton.mp shown
        · exact .inr ((onward _ later).resolve_left (by simp))
      · exact onward _ member

theorem trimBack_shows {context : Nat} {chunks : List (Chunk α)} {removed added : List α}
    (shown : .change removed added ∈ trimBack context chunks) :
    .change removed added ∈ chunks := by
  fun_induction trimBack context chunks with
  | case1 => exact shown
  | case2 items => cases List.mem_singleton.mp shown
  | case3 chunk chunks other ih => exact List.mem_cons.mpr ((List.mem_cons.mp shown).imp_right ih)

theorem trimFront_shows {context : Nat} {chunks : List (Chunk α)} {removed added : List α}
    (shown : .change removed added ∈ (trimFront context chunks).2) :
    .change removed added ∈ chunks := by
  unfold trimFront at shown
  split at shown
  · exact List.mem_cons_of_mem _ ((List.mem_cons.mp shown).resolve_left (by simp))
  · exact shown

theorem hunks_show {context : Nat} {chunks : List (Chunk α)} {hunk : Hunk α}
    (member : hunk ∈ hunks context chunks) :
    ∃ removed added, .change removed added ∈ hunk.chunks ∧ .change removed added ∈ chunks := by
  rw [hunks_eq] at member
  obtain ⟨listed,changes⟩ := List.mem_filter.mp member
  obtain ⟨chunk,present,change⟩ := List.any_eq_true.mp changes
  cases chunk with
  | same items => cases change
  | change removed added =>
    exact ⟨removed,added,present,trimFront_shows (trimBack_shows (cut_shows listed present))⟩

theorem Tidy.body_filled {context : Nat} {chunks : List (Chunk Text)} (tidy : Tidy chunks) :
    ∀ hunk ∈ hunks context chunks, hunk.body ≠ [] := by
  intro hunk member none
  obtain ⟨removed,added,present,listed⟩ := hunks_show member
  have empty := List.flatMap_eq_nil_iff.mp none _ present
  obtain ⟨out,put⟩ := List.append_eq_nil_iff.mp empty
  rcases tidy.filled _ listed with some | some
  · exact some (List.map_eq_nil_iff.mp out)
  · exact some (List.map_eq_nil_iff.mp put)

def Glued (old new : Text) : Prop :=
  unended old = true ∧ ∃ removed added,
    (chunks (lines old) (lines new)).getLast? = some (.change removed added) ∧
      removed ≠ [] ∧ added ≠ []

-- The last line that a diff shows has no break: it is the last one of the new text,
-- or of the old text where nothing is put in its place.
def OpenEnd (context : Nat) (old new : Text) : Prop :=
  match (chunks (lines old) (lines new)).getLast? with
  | some (.same items) => items.length ≤ context ∧ unended new = true
  | some (.change _ []) => unended old = true
  | some (.change _ (_ :: _)) => unended new = true
  | none => False

variable {old new : Text}

theorem unified_ending (label : Text) (context : Nat) {front : List (Chunk Text)}
    {removed added : List Text} {tail : List (Chunk Text)} (differ : old ≠ new)
    (shape : chunks (lines old) (lines new) = front ++ .change removed added :: tail)
    (ends : tail = [] ∨ ∃ items, tail = [.same items]) :
    ∃ before, unified old new label context = before ++
      (marked '-' removed ++ marked '+' added ++ (trimBack context tail).flatMap chunkEntries) := by
  obtain ⟨earlier,hunk,inner,whole,last⟩ := hunks_last context front removed added ends
  rw [unified_eq,if_neg differ,shape,whole,List.flatMap_append,List.flatMap_singleton,hunkEntries,
    last,List.flatMap_append,List.flatMap_cons]
  refine ⟨oldName label :: newName label ::
    (earlier.flatMap hunkEntries ++ header hunk :: inner.flatMap chunkEntries),?_⟩
  simp only [chunkEntries,List.cons_append,List.append_assoc]

theorem ended_shown {text : Text} {c : Char} (inner : isBreak c = false) {front : List Text}
    {last : Text} (shape : lines text = front ++ [last]) :
    ended (c :: last) = !unended text := by
  have filled : text ≠ [] := by
    rintro rfl
    cases front <;> cases shape
  rw [ended_cons inner,ended_last shape,ended_eq_not_unended filled]

theorem parted_unified_iff (label : Text) (context : Nat) (differ : old ≠ new) :
    Parted (unified old new label context) ↔ ¬ Glued old new := by
  have tidy := chunks_tidy (lines old) (lines new)
  constructor
  · rintro parted ⟨opened,removed,added,last,out,put⟩
    obtain ⟨front,shape⟩ := List.getLast?_eq_some_iff.mp last
    obtain ⟨before,whole⟩ := unified_ending label context differ shape (.inl rfl)
    rw [whole,trimBack,List.flatMap_nil,List.append_nil] at parted
    have both := (List.pairwise_append.mp parted).2.1
    rcases List.eq_nil_or_concat removed with rfl | ⟨earlier,line,rfl⟩
    · exact out rfl
    · rw [List.concat_eq_append] at *
      obtain ⟨next,later,rfl⟩ := List.exists_cons_of_ne_nil put
      have broken : ended ('-' :: line) = true :=
        (List.pairwise_append.mp both).2.2 _ (List.mem_map_of_mem (by simp)) ('+' :: next)
          List.mem_cons_self
      have final : lines old = (front.flatMap Chunk.old ++ earlier) ++ [line] := by
        rw [← chunks_old (lines old) (lines new),shape,List.flatMap_append,List.flatMap_singleton,
          List.append_assoc]
        rfl
      rw [ended_shown (c := '-') rfl final,opened] at broken
      cases broken
  · intro clean
    have olds : Parted ((chunks (lines old) (lines new)).flatMap Chunk.old) := by
      rw [chunks_old]
      exact parted_lines old
    have news : Parted ((chunks (lines old) (lines new)).flatMap Chunk.new) := by
      rw [chunks_new]
      exact parted_lines new
    have entries := tidy.parted_entries olds news (by
      intro removed added last put line out
      cases opened : unended old with
      | true => exact absurd ⟨opened,removed,added,last,List.ne_nil_of_mem out,put⟩ clean
      | false =>
        refine ended_lines opened line ?_
        rw [← chunks_old (lines old) (lines new)]
        exact List.mem_flatMap.mpr ⟨_,List.mem_of_getLast? last,out⟩)
    rw [unified_eq,if_neg differ]
    have inside := parted_hunkEntries tidy.body_filled
      (entries.sublist (hunks_entries context (chunks (lines old) (lines new))))
    exact .cons (fun _ _ => ended_append (by decide))
      (.cons (fun _ _ => ended_append (by decide)) inside)

theorem marked_last {text : Text} {c : Char} (inner : isBreak c = false) {front shown : List Text}
    (shape : lines text = front ++ shown) (filled : shown ≠ []) :
    ∃ before last, marked c shown = before ++ [last] ∧ ended last = !unended text := by
  obtain ⟨earlier,line,rfl⟩ := (List.eq_nil_or_concat _).resolve_left filled
  rw [List.concat_eq_append] at *
  rw [← List.append_assoc] at shape
  exact ⟨marked c earlier,c :: line,List.map_append,ended_shown inner shape⟩

theorem marked_hidden {text : Text} {c : Char} (inner : isBreak c = false)
    {front shown hidden : List Text} (shape : lines text = front ++ (shown ++ hidden))
    (filled : shown ≠ []) (more : hidden ≠ []) :
    ∃ before last, marked c shown = before ++ [last] ∧ ended last = true := by
  obtain ⟨earlier,line,rfl⟩ := (List.eq_nil_or_concat _).resolve_left filled
  rw [List.concat_eq_append] at *
  obtain ⟨next,rest,rfl⟩ := List.exists_cons_of_ne_nil more
  refine ⟨marked c earlier,c :: line,List.map_append,?_⟩
  rw [ended_cons inner]
  refine parted_iff.mp (parted_lines text) (front ++ earlier) line next rest ?_
  rw [shape]
  simp

theorem unified_last (label : Text) {context : Nat} (shows : 0 < context) (differ : old ≠ new) :
    ∃ front last, unified old new label context = front ++ [last] ∧
      (ended last = true ↔ ¬ OpenEnd context old new) := by
  have tidy := chunks_tidy (lines old) (lines new)
  obtain ⟨front,removed,added,tail,shape,ends⟩ :=
    tidy.last_change (chunks_changed (splitLines_injective differ))
  obtain ⟨before,whole⟩ := unified_ending label context differ shape ends
  have olds := chunks_old (lines old) (lines new)
  have news := chunks_new (lines old) (lines new)
  have filled := tidy.filled
  rw [shape,List.flatMap_append,List.flatMap_cons] at olds news
  rw [shape] at filled
  dsimp only [Chunk.old,Chunk.new] at olds news
  have closing : ∃ kept last, marked '-' removed ++ marked '+' added ++
      (trimBack context tail).flatMap chunkEntries = kept ++ [last] ∧
        (ended last = true ↔ ¬ OpenEnd context old new) := by
    unfold OpenEnd
    rw [shape]
    rcases ends with rfl | ⟨items,rfl⟩
    · rw [trimBack,List.flatMap_nil,List.append_nil,List.getLast?_concat]
      rw [List.flatMap_nil,List.append_nil] at olds news
      cases added with
      | nil =>
        have out : removed ≠ [] := (filled (.change removed []) (by simp)).resolve_right (by simp)
        obtain ⟨kept,last,shown,ending⟩ := marked_last (c := '-') rfl olds.symm out
        exact ⟨kept,last,(List.append_nil _).trans shown,by simp [ending]⟩
      | cons line added =>
        obtain ⟨kept,last,shown,ending⟩ :=
          marked_last (c := '+') rfl news.symm (List.cons_ne_nil line added)
        exact ⟨marked '-' removed ++ kept,last,by rw [shown,List.append_assoc],by simp [ending]⟩
    · have common : items ≠ [] := filled (.same items) (by simp)
      have visible : items.take context ≠ [] := by
        rw [Ne,List.take_eq_nil_iff,not_or]
        exact ⟨Nat.ne_of_gt shows,common⟩
      rw [List.getLast?_append_of_ne_nil _ (List.cons_ne_nil _ _),List.getLast?_cons_cons,
        List.getLast?_singleton,trimBack,List.flatMap_singleton,chunkEntries]
      rw [List.flatMap_singleton,← List.append_assoc] at news
      dsimp only [Chunk.new] at news
      by_cases fits : items.length ≤ context
      · rw [List.take_of_length_le fits]
        obtain ⟨kept,last,shown,ending⟩ := marked_last (c := ' ') rfl news.symm common
        exact ⟨marked '-' removed ++ marked '+' added ++ kept,last,
          by rw [shown,List.append_assoc _ kept],by simp [ending,fits]⟩
      · have split : lines new = front.flatMap Chunk.new ++ added ++
            (items.take context ++ items.drop context) := by
          rw [List.take_append_drop,← news]
        obtain ⟨kept,last,shown,ending⟩ :=
          marked_hidden (c := ' ') rfl split visible (mt List.drop_eq_nil_iff.mp fits)
        exact ⟨marked '-' removed ++ marked '+' added ++ kept,last,
          by rw [shown,List.append_assoc _ kept],by simp [ending,fits]⟩
  obtain ⟨kept,last,shown,ending⟩ := closing
  exact ⟨before ++ kept,last,by rw [whole,shown,List.append_assoc],ending⟩

theorem chunkEntries_lines {entry : Text}
    (member : entry ∈ (chunks (lines old) (lines new)).flatMap chunkEntries) :
    ∃ mark line, entry = mark :: line ∧ isBreak mark = false ∧
      (line ∈ lines old ∨ line ∈ lines new) := by
  obtain ⟨chunk,listed,inside⟩ := List.mem_flatMap.mp member
  have inOld : ∀ line ∈ chunk.old, line ∈ lines old := fun line here => by
    rw [← chunks_old (lines old) (lines new)]
    exact List.mem_flatMap.mpr ⟨chunk,listed,here⟩
  have inNew : ∀ line ∈ chunk.new, line ∈ lines new := fun line here => by
    rw [← chunks_new (lines old) (lines new)]
    exact List.mem_flatMap.mpr ⟨chunk,listed,here⟩
  cases chunk with
  | same items =>
    obtain ⟨line,here,rfl⟩ := List.mem_map.mp inside
    exact ⟨' ',line,rfl,rfl,.inl (inOld line here)⟩
  | change removed added =>
    rcases List.mem_append.mp inside with out | put
    · obtain ⟨line,here,rfl⟩ := List.mem_map.mp out
      exact ⟨'-',line,rfl,rfl,.inl (inOld line here)⟩
    · obtain ⟨line,here,rfl⟩ := List.mem_map.mp put
      exact ⟨'+',line,rfl,rfl,.inr (inNew line here)⟩

theorem mem_unified {label entry : Text} {context : Nat} (differ : old ≠ new)
    (member : entry ∈ unified old new label context) :
    entry = oldName label ∨ entry = newName label ∨ (∃ hunk : Hunk Text, entry = header hunk) ∨
      ∃ mark line, entry = mark :: line ∧ isBreak mark = false ∧
        (line ∈ lines old ∨ line ∈ lines new) := by
  rw [unified_eq,if_neg differ,List.mem_cons,List.mem_cons,List.mem_flatMap] at member
  rcases member with first | second | ⟨hunk,listed,inside⟩
  · exact .inl first
  · exact .inr (.inl second)
  · rcases List.mem_cons.mp inside with head | body
    · exact .inr (.inr (.inl ⟨hunk,head⟩))
    · have shown := (hunks_entries context (chunks (lines old) (lines new))).mem
        (List.mem_flatMap.mpr ⟨hunk,listed,body⟩)
      exact .inr (.inr (.inr (chunkEntries_lines shown)))

theorem unified_begun {label : Text} {context : Nat} (differ : old ≠ new) :
    ∀ entry ∈ unified old new label context, Begun entry := by
  intro entry member
  rcases mem_unified differ member with rfl | rfl | ⟨hunk,rfl⟩ | ⟨mark,line,rfl,inner,_⟩
  · exact ⟨'-',_,rfl,by simp⟩
  · exact ⟨'+',_,rfl,by simp⟩
  · exact ⟨'@',_,rfl,by simp⟩
  · refine ⟨mark,line,rfl,?_⟩
    rintro rfl
    cases inner

theorem single_newline : Single ['\n'] := ⟨⟨[],['\n']⟩,rfl⟩

theorem decimal_inner (number : Nat) : ∀ c ∈ decimal number, isBreak c = false := by
  intro c member
  have digit : c.isDigit = true := Nat.isDigit_of_mem_toDigits (by decide) (by decide) member
  have bounds : 48 ≤ c.toNat ∧ c.toNat ≤ 57 := by
    simpa [Char.isDigit,UInt32.le_iff_toNat_le] using digit
  simp [isBreak,inRanges,breakRanges]
  omega

theorem rangeText_inner (start size : Nat) : ∀ c ∈ rangeText start size, isBreak c = false := by
  intro c member
  unfold rangeText at member
  split at member
  · exact decimal_inner _ c member
  · rcases List.mem_append.mp member with front | last
    · rcases List.mem_append.mp front with first | comma
      · exact decimal_inner _ c first
      · rw [List.mem_singleton.mp comma]
        rfl
    · exact decimal_inner _ c last

theorem single_header (hunk : Hunk α) : Single (header hunk) := by
  have shape : header hunk = ("@@ -".toList ++ rangeText hunk.oldAt hunk.oldSize ++ " +".toList ++
      rangeText hunk.newAt hunk.newSize ++ " @@".toList) ++ ['\n'] := by
    rw [List.append_assoc _ _ ['\n']]
    rfl
  rw [shape]
  refine (single_behind ?_ (by simp)).mpr single_newline
  intro c member
  simp only [List.mem_append] at member
  rcases member with (((first | old) | plus) | new) | last
  · exact (by decide : ∀ c ∈ "@@ -".toList, isBreak c = false) c first
  · exact rangeText_inner _ _ c old
  · exact (by decide : ∀ c ∈ " +".toList, isBreak c = false) c plus
  · exact rangeText_inner _ _ c new
  · exact (by decide : ∀ c ∈ " @@".toList, isBreak c = false) c last

theorem unified_single_iff {label : Text} (context : Nat) (differ : old ≠ new) :
    (∀ entry ∈ unified old new label context, Single entry) ↔ Single (label ++ ['\n']) := by
  have named : ∀ front : Text, (∀ c ∈ front, isBreak c = false) →
      (Single (front ++ label ++ ['\n']) ↔ Single (label ++ ['\n'])) := fun front inner => by
    rw [List.append_assoc]
    exact single_behind inner (by simp)
  constructor
  · intro all
    refine (named "--- a/".toList (by decide)).mp (all _ ?_)
    rw [unified_eq,if_neg differ]
    exact List.mem_cons_self
  · intro single entry member
    rcases mem_unified differ member with rfl | rfl | ⟨hunk,rfl⟩ | ⟨mark,line,rfl,inner,listed⟩
    · exact (named "--- a/".toList (by decide)).mpr single
    · exact (named "+++ b/".toList (by decide)).mpr single
    · exact single_header hunk
    · have filled : line ≠ [] := listed.elim lines_filled lines_filled
      have apart : ∀ c ∈ [mark], isBreak c = false := by
        intro c here
        rw [List.mem_singleton.mp here]
        exact inner
      exact (single_behind apart filled).mpr (listed.elim single_of_mem single_of_mem)

end Plainmark.Diff
