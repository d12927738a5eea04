import Plainmark.Proofs.FixedPoints
import Plainmark.Proofs.Spans

namespace Plainmark.Text

-- A text with another one put in front of the characters at some places. The
-- text given stands behind a position.
def insertAt (places : List Nat) (new : Text) (position : Nat) : Text → Text
  | [] => []
  | c :: text =>
    (if position ∈ places then new else []) ++ c :: insertAt places new (position + 1) text

variable {places : List Nat} {new : Text}

theorem insertAt_append (position : Nat) (one two : Text) :
    insertAt places new position (one ++ two) =
      insertAt places new position one ++ insertAt places new (position + one.length) two := by
  induction one generalizing position with
  | nil => rfl
  | cons c one ih =>
    rw [List.cons_append,insertAt,insertAt,ih,List.append_assoc,List.cons_append,List.length_cons,
      Nat.add_comm one.length,Nat.add_assoc]

theorem insertAt_kept {position : Nat} (outside : position ∉ places) (c : Char) (text : Text) :
    insertAt places new position (c :: text) = c :: insertAt places new (position + 1) text := by
  rw [insertAt,if_neg outside,List.nil_append]

theorem insertAt_clear {position : Nat} {text : Text}
    (clear : ∀ place ∈ places, place < position ∨ position + text.length ≤ place) :
    insertAt places new position text = text := by
  induction text generalizing position with
  | nil => rfl
  | cons c text ih =>
    simp only [List.length_cons] at clear
    have outside : position ∉ places := fun member => by have := clear _ member; omega
    rw [insertAt_kept outside,ih]
    intro place member
    have := clear place member
    omega

theorem insertAt_here {position : Nat} {text : Text} (here : position ∈ places) (filled : text ≠ [])
    (clear : ∀ place ∈ places, place ≤ position ∨ position + text.length ≤ place) :
    insertAt places new position text = new ++ text := by
  cases text with
  | nil => exact absurd rfl filled
  | cons c text =>
    simp only [List.length_cons] at clear
    rw [insertAt,if_pos here,insertAt_clear]
    intro place member
    have := clear place member
    omega

theorem insertAt_agree {others : List Nat} {position : Nat}
    (agree : ∀ place, position ≤ place → (place ∈ places ↔ place ∈ others)) (text : Text) :
    insertAt places new position text = insertAt others new position text := by
  induction text generalizing position with
  | nil => rfl
  | cons c text ih =>
    rw [insertAt,insertAt,if_congr (agree position (Nat.le_refl _)) rfl rfl,
      ih fun place ahead => agree place (Nat.le_of_succ_le ahead)]

theorem mem_insertAt {c : Char} {position : Nat} {text : Text}
    (member : c ∈ insertAt places new position text) : c ∈ text ∨ c ∈ new := by
  induction text generalizing position with
  | nil => cases member
  | cons d text ih =>
    rw [insertAt,List.mem_append,List.mem_cons] at member
    rcases member with added | rfl | later
    · split at added
      · exact .inr added
      · cases added
    · exact .inl List.mem_cons_self
    · exact (ih later).imp (List.mem_cons_of_mem _) id

theorem insertAt_sublist (position : Nat) (text : Text) :
    text.Sublist (insertAt places new position text) := by
  induction text generalizing position with
  | nil => exact .slnil
  | cons c text ih =>
    rw [insertAt]
    exact ((ih (position + 1)).cons_cons c).trans (List.sublist_append_right _ _)

theorem insertAt_head {position : Nat} {c : Char} {text behind : Text} (filled : new ≠ [])
    (apart : new.head? ≠ some c) (same : insertAt places new position text = c :: behind) :
    position ∉ places ∧
      ∃ rest, text = c :: rest ∧ behind = insertAt places new (position + 1) rest := by
  cases text with
  | nil => cases same
  | cons d text =>
    have outside : position ∉ places := by
      intro here
      obtain ⟨first,others,rfl⟩ := List.exists_cons_of_ne_nil filled
      rw [insertAt,if_pos here] at same
      exact apart (by rw [(List.cons.inj same).1]; rfl)
    rw [insertAt_kept outside] at same
    obtain ⟨rfl,rfl⟩ := List.cons.inj same
    exact ⟨outside,text,rfl,rfl⟩

theorem insertAt_block {block : Text} (filled : new ≠ []) (apart : ∀ c ∈ block, new.head? ≠ some c)
    {position : Nat} {text behind : Text}
    (same : insertAt places new position text = block ++ behind) :
    ∃ rest, text = block ++ rest ∧
      behind = insertAt places new (position + block.length) rest := by
  induction block generalizing position text with
  | nil => exact ⟨text,rfl,same.symm⟩
  | cons c block ih =>
    obtain ⟨here,others⟩ := List.forall_mem_cons.mp apart
    obtain ⟨_,rest,rfl,more⟩ := insertAt_head filled here same
    obtain ⟨rest,rfl,rfl⟩ := ih others more.symm
    exact ⟨rest,rfl,by rw [List.length_cons,Nat.add_comm block.length,Nat.add_assoc]⟩

theorem insertAt_split {c : Char} (foreign : c ∉ new) {position : Nat} {text front behind : Text}
    (outside : ∀ ahead after, text = ahead ++ c :: after → position + ahead.length ∉ places)
    (same : insertAt places new position text = front ++ c :: behind) :
    ∃ ahead after, text = ahead ++ c :: after ∧ front = insertAt places new position ahead ∧
      behind = insertAt places new (position + ahead.length + 1) after := by
  induction text generalizing position front with
  | nil =>
    have size := congrArg List.length same
    simp [insertAt] at size
  | cons d text ih =>
    rw [insertAt] at same
    have plain : c ∉ if position ∈ places then new else [] := by
      split
      · exact foreign
      · exact List.not_mem_nil
    obtain ⟨inner,rfl,rest⟩ := mark_behind _ same plain
    cases inner with
    | nil =>
      obtain ⟨rfl,rfl⟩ := List.cons.inj rest
      have here : position ∉ places := outside [] text rfl
      exact ⟨[],text,rfl,by rw [if_neg here]; rfl,rfl⟩
    | cons e inner =>
      obtain ⟨rfl,shifted⟩ := List.cons.inj rest
      have later : ∀ ahead after, text = ahead ++ c :: after →
          position + 1 + ahead.length ∉ places := by
        rintro ahead after rfl
        have there := outside (d :: ahead) after rfl
        rwa [List.length_cons,Nat.add_comm ahead.length,← Nat.add_assoc] at there
      obtain ⟨ahead,after,rfl,rfl,rfl⟩ := ih later shifted
      refine ⟨d :: ahead,after,rfl,by rw [insertAt],?_⟩
      rw [List.length_cons,Nat.add_comm ahead.length,← Nat.add_assoc]

theorem mark_apart {one block two front behind : Text} {mark : Char}
    (same : one ++ (block ++ two) = front ++ mark :: behind) (absent : mark ∉ block) :
    front.length < one.length ∨ one.length + block.length ≤ front.length := by
  rcases mark_cases one same with ⟨inner,rfl,_⟩ | ⟨inner,rfl,later⟩
  · exact .inl (by simp)
  · obtain ⟨more,rfl,_⟩ := mark_behind block later absent
    exact .inr (by simp)

def Opened (text : Text) (place : Nat) : Prop :=
  ∃ front behind, text = front ++ ']' :: '(' :: behind ∧ place = front.length + 2

theorem Opened.apart_label {front block behind : Text} {place : Nat}
    (opened : Opened (front ++ (block ++ behind)) place) (absent : ']' ∉ block) :
    place < front.length + 2 ∨ front.length + block.length + 2 ≤ place := by
  obtain ⟨ahead,after,same,rfl⟩ := opened
  have apart := mark_apart same absent
  omega

theorem Opened.apart_target {front block behind : Text} {place : Nat}
    (opened : Opened (front ++ (block ++ behind)) place) (absent : '(' ∉ block) :
    place < front.length + 1 ∨ front.length + block.length + 1 ≤ place := by
  obtain ⟨ahead,after,same,rfl⟩ := opened
  have shape : front ++ (block ++ behind) = (ahead ++ [']']) ++ '(' :: after := by
    rw [same,List.append_assoc,List.singleton_append]
  have apart := mark_apart shape absent
  rw [List.length_append,List.length_singleton] at apart
  omega

theorem insertAt_unopened {front block behind : Text} (filled : block ≠ []) (absent : '(' ∉ block)
    (opened : ∀ place ∈ places, Opened (front ++ (block ++ behind)) place) :
    insertAt places new front.length block =
      (if front.length ∈ places then new else []) ++ block := by
  have apart : ∀ place ∈ places, place ≤ front.length ∨ front.length + block.length ≤ place := by
    intro place member
    have := (opened place member).apart_target absent
    omega
  split
  · rename_i here
    exact insertAt_here here filled apart
  · rename_i outside
    refine insertAt_clear fun place member => ?_
    have other : place ≠ front.length := fun same => outside (same ▸ member)
    have := apart place member
    omega

end Plainmark.Text

namespace Plainmark.Pattern
variable (pattern : Pattern α) (at? : α → Option Nat)

def placesBehind (position : Nat) (text : Text) : List Nat :=
  (pattern.spansBehind position text).filterMap fun span => (at? span.2.2).map (span.1 + ·)

theorem mem_placesBehind {position : Nat} {text : Text} {place : Nat} :
    place ∈ pattern.placesBehind at? position text ↔
      ∃ span ∈ pattern.spansBehind position text, ∃ inner, at? span.2.2 = some inner ∧
        place = span.1 + inner := by
  simp only [placesBehind,List.mem_filterMap,Option.map_eq_some_iff,eq_comm (a := place)]

theorem placesBehind_start (position : Nat) (text : Text) :
    ∀ place ∈ pattern.placesBehind at? position text, position ≤ place := by
  intro place member
  obtain ⟨span,met,inner,_,rfl⟩ := (pattern.mem_placesBehind at?).mp member
  have start := (pattern.spansBehind_start met).1
  omega

theorem placesBehind_found {position : Nat} {text rest : Text} {occurrence : α}
    (read : pattern.read? text = some (occurrence,rest)) :
    pattern.placesBehind at? position text = ((at? occurrence).map (position + ·)).toList ++
      pattern.placesBehind at? (position + (pattern.source occurrence).length) rest := by
  rw [placesBehind,pattern.spansBehind_found read,List.filterMap_cons]
  cases at? occurrence <;> rfl

theorem placesBehind_kept {position : Nat} {c : Char} {text : Text}
    (read : pattern.read? (c :: text) = none) : pattern.placesBehind at? position (c :: text) =
      pattern.placesBehind at? (position + 1) text := by
  rw [placesBehind,pattern.spansBehind_kept read]
  rfl

end Plainmark.Pattern

namespace Plainmark.Substitution
open Text
variable {pattern : Pattern α} {render : α → Logged} {at? : α → Option Nat} {new : Text}

-- A rendering that puts a text into an occurrence, or leaves the occurrence as
-- it is where it names no place.
structure Inserts (pattern : Pattern α) (render : α → Logged) (at? : α → Option Nat)
    (new : Text) : Prop where
  kept : ∀ occurrence, at? occurrence = none → (render occurrence).text = pattern.source occurrence
  put : ∀ occurrence inner, at? occurrence = some inner → ∃ front behind, behind ≠ [] ∧
    pattern.source occurrence = front ++ behind ∧ inner = front.length ∧
    (render occurrence).text = front ++ new ++ behind

theorem Inserts.render_eq (inserts : Inserts pattern render at? new) (occurrence : α)
    {position : Nat} {later : List Nat}
    (behind : ∀ place ∈ later, position + (pattern.source occurrence).length ≤ place) :
    (render occurrence).text =
      insertAt (((at? occurrence).map (position + ·)).toList ++ later) new position
        (pattern.source occurrence) := by
  cases named : at? occurrence with
  | none =>
    rw [inserts.kept occurrence named,insertAt_clear]
    exact fun place member => .inr (behind place member)
  | some inner =>
    obtain ⟨front,back,filled,source,rfl,shape⟩ := inserts.put occurrence inner named
    have places : ∀ place ∈ ((some front.length).map (position + ·)).toList ++ later,
        place = position + front.length ∨ position + front.length + back.length ≤ place := by
      intro place member
      rcases List.mem_append.mp member with here | after
      · exact .inl (List.mem_singleton.mp here)
      · have far := behind place after
        rw [source,List.length_append] at far
        exact .inr (by omega)
    rw [shape,source,insertAt_append,insertAt_clear,insertAt_here,List.append_assoc]
    · exact List.mem_append_left _ (List.mem_singleton_self _)
    · exact filled
    · intro place member
      have := places place member
      omega
    · intro place member
      have := places place member
      omega

theorem replaceAll_insertAt (inserts : Inserts pattern render at? new) (position : Nat)
    (text : Text) : replaceAll pattern render text =
      insertAt (pattern.placesBehind at? position text) new position text := by
  induction text using pattern.scan_induction generalizing position with
  | empty => rw [replaceAll_nil]; rfl
  | found text occurrence rest read ih =>
    have later := pattern.placesBehind_start at? (position + (pattern.source occurrence).length) rest
    have agree : ∀ place, position + (pattern.source occurrence).length ≤ place →
        (place ∈ pattern.placesBehind at? position text ↔ place ∈
          pattern.placesBehind at? (position + (pattern.source occurrence).length) rest) := by
      intro place ahead
      rw [pattern.placesBehind_found at? read,List.mem_append,or_iff_right]
      intro own
      obtain ⟨inner,named,rfl⟩ := Option.map_eq_some_iff.mp (Option.mem_toList.mp own)
      obtain ⟨front,back,filled,source,rfl,_⟩ := inserts.put occurrence inner named
      have positive := List.length_pos_iff.mpr filled
      rw [source,List.length_append] at ahead
      omega
    rw [replaceAll_found read,ih (position + (pattern.source occurrence).length),
      ← insertAt_agree agree,inserts.render_eq occurrence later,← pattern.placesBehind_found at? read,
      ← insertAt_append,← pattern.canonical read]
  | kept c text read ih =>
    have outside : position ∉ pattern.placesBehind at? (position + 1) text := by
      intro member
      have := pattern.placesBehind_start at? (position + 1) text position member
      omega
    rw [replaceAll_kept read,pattern.placesBehind_kept at? read,insertAt_kept outside,
      ih (position + 1)]

end Plainmark.Substitution

namespace Plainmark.Image
open Text Substitution

def place? (folder : Text) (image : Image) : Option Nat :=
  if settled folder image.target then none else some (image.alt.length + 4)

def settle (folder : Text) (image : Image) : Image :=
  if settled folder image.target then image else ⟨image.alt,folder ++ ['/'] ++ image.target⟩

def intoFolder (folder : Text) (image : Image) : Logged := ⟨moved folder image,[]⟩

def places (folder text : Text) : List Nat := pattern.placesBehind (place? folder) 0 text

theorem place?_length {folder : Text} {image : Image} {inner : Nat}
    (placed : place? folder image = some inner) :
    (['!','['] ++ image.alt ++ [']','(']).length = inner := by
  unfold place? at placed
  split at placed
  · cases placed
  · cases placed
    simp

theorem source_split (alt target : Text) : source ⟨alt,target⟩ =
    '!' :: '[' :: (alt ++ ']' :: '(' :: (target ++ [')'])) := by
  simp [source]

theorem moved_eq (folder : Text) (image : Image) : moved folder image = source (settle folder image) := by
  unfold moved settle
  split <;> rfl

theorem moved_inserts {folder : Text} :
    Inserts pattern (intoFolder folder) (place? folder) (folder ++ ['/']) := by
  refine ⟨fun image unplaced => ?_,fun image inner placed => ?_⟩
  · unfold place? at unplaced
    split at unplaced
    · rename_i settles
      exact (moved_eq_source_iff folder image).mpr settles
    · cases unplaced
  · unfold place? at placed
    split at placed
    · cases placed
    · rename_i unsettled
      cases placed
      refine ⟨'!' :: '[' :: image.alt ++ [']','('],image.target ++ [')'],by simp,?_,by simp,?_⟩
      · simp [pattern,source]
      · show moved folder image = _
        rw [moved,if_neg unsettled]
        simp [source]

theorem places_targets {folder text : Text} {place : Nat} (member : place ∈ places folder text) :
    ∃ front target rest, text = front ++ ']' :: '(' :: (target ++ ')' :: rest) ∧
      place = front.length + 2 ∧ target ≠ [] ∧ ')' ∉ target ∧ onWeb target = false := by
  obtain ⟨span,met,inner,placed,rfl⟩ := (pattern.mem_placesBehind _).mp member
  obtain ⟨front,ending,rest,rfl,start,read,_⟩ := pattern.spansBehind_read met
  obtain ⟨rfl,_,filled,closed,offWeb⟩ := read?_eq_some_iff.mp read
  refine ⟨front ++ ['!','['] ++ span.2.2.alt,span.2.2.target,rest,?_,?_,filled,closed,offWeb⟩
  · simp [source]
  · rw [start,← place?_length placed]
    simp only [List.length_append,List.length_cons,List.length_nil]
    omega

theorem places_behind_bracket {folder text : Text} {place : Nat}
    (member : place ∈ places folder text) : ∃ span ∈ pattern.spans text,
      slice text span.1 place = ['!','['] ++ span.2.2.alt ++ [']','('] := by
  obtain ⟨span,met,inner,placed,rfl⟩ := (pattern.mem_placesBehind _).mp member
  refine ⟨span,met,?_⟩
  have whole := pattern.canonical (pattern.spans_read met).2
  have shape : text.drop span.1 = (['!','['] ++ span.2.2.alt ++ [']','(']) ++
      (span.2.2.target ++ ')' :: text.drop span.2.1) := by
    rw [whole]
    simp [pattern,source]
  rw [slice,Nat.add_sub_cancel_left,shape,← place?_length placed,List.take_left]

theorem places_opened {folder text : Text} {place : Nat} (member : place ∈ places folder text) :
    Opened text place := by
  obtain ⟨front,target,rest,shape,here,_⟩ := places_targets member
  exact ⟨front,_,shape,here⟩

theorem onWeb_iff {target : Text} : onWeb target = true ↔
    ∃ web ∈ ["http://".toList,"https://".toList], ∃ rest, target = web ++ rest := by
  simp [onWeb,Option.isSome_iff_exists,after?_eq_some_iff]

section
variable {taken : List Nat} {new : Text}

theorem places_far {label rest : Text} (absent : ']' ∉ label)
    (opened : ∀ place ∈ taken, Opened ('[' :: (label ++ ']' :: rest)) place) :
    ∀ place ∈ taken, label.length + 3 ≤ place := by
  intro place member
  obtain ⟨ahead,after,same,rfl⟩ := opened place member
  have shape : Opened ([] ++ (('[' :: label) ++ (']' :: rest))) (ahead.length + 2) :=
    ⟨ahead,after,same,rfl⟩
  have apart := shape.apart_label (by simp [absent])
  simp only [List.length_nil,List.length_cons] at apart
  omega

theorem insertAt_label {label : Text} (far : ∀ place ∈ taken, label.length + 3 ≤ place)
    (rest : Text) : insertAt taken new 1 (label ++ ']' :: rest) =
      label ++ ']' :: insertAt taken new (label.length + 2) rest := by
  have split : label ++ ']' :: rest = (label ++ [']']) ++ rest := by simp
  rw [split,insertAt_append,insertAt_clear,List.append_assoc,List.length_append,
    List.length_singleton,List.singleton_append,Nat.add_comm 1]
  intro place member
  have := far place member
  rw [List.length_append,List.length_singleton]
  omega

theorem insertAt_inside {text alt behind : Text}
    (opened : ∀ place ∈ taken, Opened ('[' :: text) place) (described : ']' ∉ alt)
    (shape : insertAt taken new 1 text = alt ++ ']' :: '(' :: behind) :
    ∃ address, text = alt ++ ']' :: '(' :: address ∧
      insertAt taken new (alt.length + 3) address = behind := by
  have bracket : ']' ∈ text := by
    by_contra absent
    have unopened : ∀ place ∈ taken, place < 1 ∨ 1 + text.length ≤ place := by
      intro place member
      obtain ⟨ahead,after,same,_⟩ := opened place member
      have inside : ']' ∈ '[' :: text := by rw [same]; simp
      simp [absent] at inside
    rw [insertAt_clear unopened] at shape
    exact absent (by rw [shape]; simp)
  obtain ⟨label,rest,rfl,absent⟩ := List.eq_append_cons_of_mem bracket
  have far := places_far absent opened
  rw [insertAt_label far] at shape
  obtain ⟨rfl,after⟩ := mark_unique shape absent described
  cases rest with
  | nil => cases after
  | cons c address =>
    have outside : label.length + 2 ∉ taken := fun member => by have := far _ member; omega
    rw [insertAt_kept outside] at after
    obtain ⟨rfl,same⟩ := List.cons.inj after
    exact ⟨address,rfl,same⟩

theorem insertAt_web {label web rest : Text} (filled : web ≠ []) (plain : '(' ∉ web)
    (opened : ∀ place ∈ taken, Opened ('[' :: (label ++ ']' :: '(' :: (web ++ rest))) place)
    (outside : label.length + 3 ∉ taken) : insertAt taken new (label.length + 3) (web ++ rest) =
      web ++ insertAt taken new (label.length + 3 + web.length) rest := by
  have ahead : ('[' :: label ++ [']','(']).length = label.length + 3 := by simp
  have kept : insertAt taken new ('[' :: label ++ [']','(']).length web = _ :=
    insertAt_unopened filled plain fun place member => by simpa using opened place member
  rw [ahead,if_neg outside,List.nil_append] at kept
  rw [insertAt_append,kept]

theorem insertAt_target {label address target behind : Text}
    (opened : ∀ place ∈ taken, Opened ('[' :: (label ++ ']' :: '(' :: address)) place)
    (outside : label.length + 3 ∉ taken) (unclosed : ')' ∉ new) (filled : target ≠ [])
    (closed : ')' ∉ target) (offWeb : onWeb target = false)
    (shape : insertAt taken new (label.length + 3) address = target ++ ')' :: behind) :
    ∃ given after, address = given ++ ')' :: after ∧ given ≠ [] ∧ ')' ∉ given ∧
      onWeb given = false := by
  have mark : ')' ∈ insertAt taken new (label.length + 3) address := by rw [shape]; simp
  have parenthesis : ')' ∈ address := (mem_insertAt mark).resolve_right unclosed
  obtain ⟨given,after,rfl,absent⟩ := List.eq_append_cons_of_mem parenthesis
  refine ⟨given,after,rfl,?_,absent,Bool.eq_false_iff.mpr fun met => ?_⟩
  · rintro rfl
    rw [List.nil_append,insertAt_kept outside] at shape
    cases target with
    | nil => exact filled rfl
    | cons c target =>
      obtain ⟨rfl,_⟩ := List.cons.inj shape
      exact closed List.mem_cons_self
  · obtain ⟨web,listed,rest,rfl⟩ := onWeb_iff.mp met
    have marks : web ≠ [] ∧ '(' ∉ web ∧ ')' ∉ web := by
      rcases List.mem_pair.mp listed with rfl | rfl <;> decide
    rw [List.append_assoc] at opened shape
    rw [insertAt_web marks.1 marks.2.1 opened outside] at shape
    obtain ⟨inner,rfl,_⟩ := mark_behind web shape marks.2.2
    have found := onWeb_iff.mpr ⟨web,listed,inner,rfl⟩
    rw [offWeb] at found
    cases found

end

theorem read?_spelled {alt target : Text} (described : ']' ∉ alt) (filled : target ≠ [])
    (closed : ')' ∉ target) (offWeb : onWeb target = false) (behind : Text) :
    read? ('!' :: '[' :: (alt ++ ']' :: '(' :: (target ++ ')' :: behind))) =
      some (⟨alt,target⟩,behind) := by
  have whole : '!' :: '[' :: (alt ++ ']' :: '(' :: (target ++ ')' :: behind)) =
      source ⟨alt,target⟩ ++ behind := by simp [source]
  rw [whole]
  exact read?_eq_some_iff.mpr ⟨rfl,described,filled,closed,offWeb⟩

theorem unread_moved {folder : Text} (closed : ')' ∉ folder) {c : Char} {text : Text}
    (read : read? (c :: text) = none) :
    read? (c :: insertAt (places folder text) (folder ++ ['/']) 0 text) = none := by
  rw [Option.eq_none_iff_forall_ne_some]
  rintro ⟨⟨alt,target⟩,behind⟩ found
  obtain ⟨shape,described,filled,closedTarget,offWeb⟩ := read?_eq_some_iff.mp found
  rw [source_split] at shape
  dsimp only at described filled closedTarget offWeb
  have opened : ∀ place ∈ places folder text, Opened text place := fun _ => places_opened
  cases text with
  | nil => simp [insertAt] at shape
  | cons d text =>
    have first : 0 ∉ places folder (d :: text) := by
      intro member
      obtain ⟨_,_,_,here⟩ := opened 0 member
      omega
    rw [insertAt_kept first] at shape
    simp only [List.cons_append,List.append_assoc,List.cons.injEq,List.nil_append] at shape
    obtain ⟨mark,rfl,inside⟩ := shape
    obtain ⟨address,rfl,outer⟩ := insertAt_inside opened described inside
    by_cases here : alt.length + 3 ∈ places folder ('[' :: (alt ++ ']' :: '(' :: address))
    · obtain ⟨front,given,after,same,start,named,unclosed,elsewhere⟩ := places_targets here
      have level : ('[' :: alt).length = front.length := by
        rw [List.length_cons]
        omega
      obtain ⟨_,tail⟩ := List.append_inj (same : ('[' :: alt) ++ _ = front ++ _) level
      simp only [List.cons.injEq,true_and] at tail
      rw [mark,tail,read?_spelled described named unclosed elsewhere] at read
      cases read
    · have unclosed : ')' ∉ folder ++ ['/'] := by simp [closed]
      obtain ⟨given,after,rfl,named,absent,elsewhere⟩ :=
        insertAt_target opened here unclosed filled closedTarget offWeb outer
      rw [mark,read?_spelled described named absent elsewhere] at read
      cases read

theorem settled_iff {folder target : Text} : settled folder target = true ↔
    hasScheme target = true ∨ target.head? = some '/' ∨ target.head? = some '#' ∨
      target = folder ∨ folder ++ ['/'] <+: target := by
  simp only [settled,anchored,Bool.or_eq_true,beq_iff_eq,Option.isSome_iff_exists,
    after?_eq_some_iff,List.IsPrefix,or_assoc,eq_comm (a := target)]

theorem settled_settle (folder : Text) (image : Image) :
    settled folder (settle folder image).target = true := by
  unfold settle
  split
  · assumption
  · exact settled_iff.mpr (.inr (.inr (.inr (.inr ⟨image.target,rfl⟩))))

-- A folder and a slash begin an address on the web only where the folder does,
-- or where the slashes of the address end the folder or begin the target.
theorem web_of_folder {scheme folder target rest : Text} (plain : '/' ∉ scheme)
    (same : folder ++ '/' :: target = scheme ++ '/' :: '/' :: rest) :
    (∃ rest, folder = scheme ++ '/' :: '/' :: rest) ∨ folder.getLast? = some '/' ∨
      target.head? = some '/' := by
  obtain ⟨inner,rfl,slashes⟩ := mark_behind scheme same.symm plain
  cases inner with
  | nil =>
    obtain ⟨_,rfl⟩ := List.cons.inj slashes
    exact .inr (.inr rfl)
  | cons c inner =>
    obtain ⟨rfl,further⟩ := List.cons.inj slashes
    cases inner with
    | nil => exact .inr (.inl (by simp))
    | cons d inner =>
      obtain ⟨rfl,_⟩ := List.cons.inj further
      exact .inl ⟨inner,rfl⟩

theorem getLast?_stripSlashes (text : Text) : (stripSlashes text).getLast? ≠ some '/' := by
  rw [stripSlashes,stripSlashesRight,List.getLast?_reverse]
  have first := List.head?_dropWhile_not (· == '/') (text.dropWhile (· == '/')).reverse
  intro last
  rw [last] at first
  simp at first

theorem offWeb_moved {folder target : Text} (offWeb : onWeb folder = false)
    (stripped : folder.getLast? ≠ some '/') (rooted : target.head? ≠ some '/') :
    onWeb (folder ++ ['/'] ++ target) = false := by
  refine Bool.eq_false_iff.mpr fun met => ?_
  obtain ⟨web,listed,rest,same⟩ := onWeb_iff.mp met
  rw [List.append_assoc,List.singleton_append] at same
  have scheme : ∃ scheme, '/' ∉ scheme ∧ web = scheme ++ ['/','/'] := by
    rcases List.mem_pair.mp listed with rfl | rfl
    · exact ⟨"http:".toList,by decide,rfl⟩
    · exact ⟨"https:".toList,by decide,rfl⟩
  obtain ⟨scheme,plain,rfl⟩ := scheme
  rw [List.append_assoc,List.cons_append,List.singleton_append] at same
  rcases web_of_folder plain same with ⟨rest,rfl⟩ | slash | slash
  · have found : onWeb (scheme ++ ['/','/'] ++ rest) = true := onWeb_iff.mpr ⟨_,listed,rest,rfl⟩
    rw [List.append_assoc] at found
    rw [show scheme ++ '/' :: '/' :: rest = scheme ++ (['/','/'] ++ rest) from rfl,found] at offWeb
    cases offWeb
  · exact stripped slash
  · exact rooted slash

structure Proper (folder : Text) : Prop where
  closed : ')' ∉ folder
  offWeb : onWeb folder = false
  stripped : folder.getLast? ≠ some '/'

theorem read?_settle {folder : Text} (proper : Proper folder) {image : Image} {text rest : Text}
    (read : read? text = some (image,rest)) (behind : Text) :
    read? (moved folder image ++ behind) = some (settle folder image,behind) := by
  obtain ⟨_,described,filled,closed,offWeb⟩ := read?_eq_some_iff.mp read
  rw [moved_eq]
  refine read?_eq_some_iff.mpr ⟨rfl,?_⟩
  unfold settle
  split
  · exact ⟨described,filled,closed,offWeb⟩
  · rename_i unsettled
    have rooted : image.target.head? ≠ some '/' := fun slash =>
      unsettled (settled_iff.mpr (.inr (.inl slash)))
    refine ⟨described,by simp,?_,offWeb_moved proper.offWeb proper.stripped rooted⟩
    simp [proper.closed,closed]

def settlePiece (folder : Text) : Piece Image → Piece Image
  | .kept c => .kept c
  | .found image => .found (settle folder image)

theorem scan_settled {folder : Text} (proper : Proper folder) (text : Text) :
    pattern.scan (replaceAll pattern (intoFolder folder) text) =
      (pattern.scan text).map (settlePiece folder) := by
  induction text using pattern.scan_induction with
  | empty => simp [replaceAll_nil]
  | found text image rest read ih =>
    rw [replaceAll_found read,pattern.scan_found read,List.map_cons,← ih]
    exact pattern.scan_found (read?_settle proper read _)
  | kept c text read ih =>
    have unread : pattern.read? (c :: replaceAll pattern (intoFolder folder) text) = none := by
      rw [replaceAll_insertAt moved_inserts 0]
      exact unread_moved proper.closed read
    rw [replaceAll_kept read,pattern.scan_kept read,pattern.scan_kept unread,ih]
    rfl

theorem found_settled {folder : Text} (proper : Proper folder) {text : Text} {image : Image}
    (met : .found image ∈ pattern.scan (replaceAll pattern (intoFolder folder) text)) :
    settled folder image.target = true := by
  rw [scan_settled proper,List.mem_map] at met
  obtain ⟨piece,_,same⟩ := met
  cases piece with
  | kept c => cases same
  | found other =>
    cases same
    exact settled_settle folder other

-- Images move once: a second run changes nothing, the first one only puts the
-- folder behind the brackets of images that it meets, and every image met in
-- the result has a target that no folder precedes or lies in the folder.
theorem images_move_once (context : Context) (text : Text)
    (closed : ')' ∉ stripSlashes context.settings.assetsDir)
    (offWeb : ∀ web ∈ ["http://".toList,"https://".toList],
      ¬ web <+: stripSlashes context.settings.assetsDir) :
    let folder := stripSlashes context.settings.assetsDir
    let result := (Stage.image.apply context text).text
    (Stage.image.apply context result).text = result ∧
    result = insertAt (places folder text) (folder ++ ['/']) 0 text ∧
    (∀ place ∈ places folder text, ∃ span ∈ pattern.spans text,
      slice text span.1 place = ['!','['] ++ span.2.2.alt ++ [']','(']) ∧
    (∀ image, .found image ∈ pattern.scan result →
      hasScheme image.target = true ∨ image.target.head? = some '/' ∨
        image.target.head? = some '#' ∨ image.target = folder ∨ folder ++ ['/'] <+: image.target) := by
  intro folder result
  have proper : Proper folder := by
    refine ⟨closed,Bool.eq_false_iff.mpr fun met => ?_,getLast?_stripSlashes _⟩
    obtain ⟨web,listed,rest,same⟩ := onWeb_iff.mp met
    exact offWeb web listed ⟨rest,same.symm⟩
  refine ⟨replaceAll_unchanged ?_,replaceAll_insertAt moved_inserts 0 text,
    fun place => places_behind_bracket,?_⟩
  · rintro ⟨image,met,changed⟩
    exact changed ((moved_eq_source_iff folder image).mpr (found_settled proper met))
  · intro image met
    exact settled_iff.mp (found_settled proper met)

theorem nested_images_move_once :
    let context : Context := .standard ⟨.relative,["index.md".toList]⟩ fun _ _ => false
    let result := "![a ![b](assets/c.png) ![](assets/d![e](f.png)".toList
    (Stage.image.apply context "![a ![b](c.png) ![](d![e](f.png)".toList).text = result ∧
      (Stage.image.apply context result).text = result := by
  intro context result
  have first : (Stage.image.apply context "![a ![b](c.png) ![](d![e](f.png)".toList).text = result := by
    decide +kernel
  have again := (images_move_once context "![a ![b](c.png) ![](d![e](f.png)".toList
    (by decide) (by decide)).1
  rw [first] at again
  exact ⟨first,again⟩

end Plainmark.Image
