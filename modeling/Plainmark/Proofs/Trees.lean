import Mathlib.Data.List.Induction
import Plainmark.Disk.Replacement

namespace Plainmark

structure Entry.Named (name : Text) : Prop where
  filled : name ≠ []
  whole : '/' ∉ name
  plain : '\x00' ∉ name
  other : name ≠ Path.dot ∧ name ≠ Path.dots
  short : Text.Utf8.size name ≤ Disk.nameLimit

def Entry.isFolder : Entry → Bool
  | .folder => true
  | .file _ _ => false

structure Disk.Sound (disk : Disk) : Prop where
  here : disk.entry? disk.here = some .folder
  distinct : (disk.entries.map Prod.fst).Nodup
  inside : ∀ place entry, (place,entry) ∈ disk.entries → ∃ folder name,
    place = folder ++ [name] ∧ Entry.Named name ∧ disk.entry? folder = some .folder

end Plainmark

namespace Plainmark.Entry

theorem named_iff {name : Text} : Named name ↔ name ≠ [] ∧ '/' ∉ name ∧ '\x00' ∉ name ∧
    (name ≠ Path.dot ∧ name ≠ Path.dots) ∧ Text.Utf8.size name ≤ Disk.nameLimit :=
  ⟨fun named => ⟨named.filled,named.whole,named.plain,named.other,named.short⟩,
    fun ⟨filled,whole,plain,other,short⟩ => ⟨filled,whole,plain,other,short⟩⟩

instance (name : Text) : Decidable (Named name) := decidable_of_iff _ named_iff.symm

end Plainmark.Entry

namespace Plainmark.Location

theorem below?_eq_some_iff {root place : Location} {names : List Text} :
    below? root place = some names ↔ place = root ++ names := by
  induction root generalizing place with
  | nil => simp [below?,eq_comm]
  | cons n root ih =>
    cases place with
    | nil => simp [below?]
    | cons m place =>
      rw [below?,List.cons_append,List.cons.injEq]
      split
      · rename_i same
        rw [ih]
        exact ⟨fun rest => ⟨same.symm,rest⟩,fun both => both.2⟩
      · rename_i apart
        exact ⟨(nomatch ·),fun both => absurd both.1.symm apart⟩

end Plainmark.Location

namespace Plainmark

theorem lookup_filter {Key Value : Type} [BEq Key] [LawfulBEq Key] [DecidableEq Key]
    (place other : Key) (entries : List (Key × Value)) :
    (entries.filter fun entry => entry.1 ≠ place).lookup other =
      if other = place then none else entries.lookup other := by
  induction entries with
  | nil => simp
  | cons entry entries ih =>
    by_cases kept : entry.1 = place
    · rw [List.filter_cons_of_neg (by simpa using kept),ih]
      split
      · rfl
      · rename_i apart
        have differs : (other == entry.1) = false := by simpa [kept] using apart
        rw [List.lookup_cons,differs]
    · rw [List.filter_cons_of_pos (by simpa using kept),List.lookup_cons,List.lookup_cons,ih]
      by_cases same : other = entry.1
      · simp [same,kept]
      · have differs : (other == entry.1) = false := by simpa using same
        rw [differs]

end Plainmark

namespace Plainmark.Disk
open Text
variable {disk : Disk}

theorem stands_root (disk : Disk) : disk.entry? [] = some .folder := rfl

theorem stands_named {place : Location} (named : place ≠ []) (disk : Disk) :
    disk.entry? place = disk.entries.lookup place := if_neg named

theorem stands_set {place : Location} (named : place ≠ []) (disk : Disk) (entry : Entry)
    (other : Location) : Disk.entry? (disk.set place entry) other =
      if other = place then some entry else disk.entry? other := by
  by_cases root : other = []
  · rw [root,stands_root,stands_root,if_neg (Ne.symm named)]
  · rw [stands_named root,stands_named root,set,List.lookup_cons]
    by_cases same : other = place
    · simp [same]
    · have differs : (other == place) = false := by simpa using same
      rw [differs,if_neg same]
      exact (lookup_filter place other disk.entries).trans (if_neg same)

theorem stands_erase {place : Location} (named : place ≠ []) (disk : Disk) (other : Location) :
    Disk.entry? (disk.erase place) other = if other = place then none else disk.entry? other := by
  by_cases root : other = []
  · rw [root,stands_root,stands_root,if_neg (Ne.symm named)]
  · rw [stands_named root,stands_named root]
    exact lookup_filter place other disk.entries

theorem find_eq_ok_iff {path : Path} {place : Location} {entry : Entry} :
    disk.find path = .ok (place,entry) ↔ path.holdsNul = false ∧
      disk.locate path = .ok place ∧ disk.entry? place = some entry := by
  unfold find
  cases nul : path.holdsNul with
  | true => simp
  | false =>
    cases located : disk.locate path with
    | error obstacle => simp
    | ok there =>
      simp only [Bool.false_eq_true,if_false,Except.ok.injEq,true_and]
      constructor
      · intro found
        split at found
        · rename_i other stands
          obtain ⟨rfl,rfl⟩ := Prod.mk.inj (Except.ok.inj found)
          exact ⟨rfl,stands⟩
        · cases found
      · rintro ⟨rfl,stands⟩
        rw [stands]

theorem find_error {path : Path} {trouble : Trouble} (plain : path.holdsNul = false)
    (unfound : disk.find path = .error trouble) :
    trouble = .access .missing path ∨
      ∃ obstacle, disk.locate path = .error obstacle ∧ trouble = .access obstacle path := by
  unfold find at unfound
  rw [plain] at unfound
  simp only [Bool.false_eq_true,if_false] at unfound
  cases located : disk.locate path with
  | error obstacle =>
    rw [located] at unfound
    cases unfound
    exact .inr ⟨obstacle,rfl,rfl⟩
  | ok place =>
    rw [located] at unfound
    cases stands : disk.entry? place with
    | none =>
      simp only [stands] at unfound
      cases unfound
      exact .inl rfl
    | some entry =>
      simp only [stands] at unfound
      cases unfound

theorem walk_cons {place final : Location} {name : Text} {names : List Text} :
    disk.walk place (name :: names) = .ok final ↔ disk.entry? place = some .folder ∧
      ((name = Path.dots ∧ disk.walk place.dropLast names = .ok final) ∨
        (name ≠ Path.dots ∧ Utf8.size name ≤ nameLimit ∧ (disk.entry? (place ++ [name])).isSome ∧
          disk.walk (place ++ [name]) names = .ok final)) := by
  rw [walk]
  cases stands : disk.entry? place with
  | none => simp
  | some entry =>
    cases entry with
    | file bytes mode => simp
    | folder =>
      by_cases dots : name = Path.dots
      · simp [dots]
      · by_cases long : nameLimit < Utf8.size name
        · simp [dots,long,Nat.not_le_of_gt long]
        · have fits : Utf8.size name ≤ nameLimit := Nat.le_of_not_gt long
          cases next : disk.entry? (place ++ [name]) with
          | none => simp [dots,long]
          | some entry => simp [dots,long,fits]

theorem walk_through {place middle : Location} {first : List Text}
    (walked : disk.walk place first = .ok middle)
    (rest : List Text) : disk.walk place (first ++ rest) = disk.walk middle rest := by
  induction first generalizing place with
  | nil =>
    cases walked
    rfl
  | cons name first ih =>
    obtain ⟨folder,⟨rfl,onward⟩ | ⟨other,short,next,onward⟩⟩ := walk_cons.mp walked
    · rw [List.cons_append,walk,folder]
      exact ih onward
    · have there : ¬ (disk.entry? (place ++ [name])).isNone :=
        mt Option.isNone_iff_eq_none.mp (Option.isSome_iff_ne_none.mp next)
      rw [List.cons_append,walk,folder]
      dsimp only
      rw [if_neg other,if_neg (Nat.not_lt.mpr short),if_neg there]
      exact ih onward

theorem walk_append {place middle final : Location} {first rest : List Text}
    (one : disk.walk place first = .ok middle) (two : disk.walk middle rest = .ok final) :
    disk.walk place (first ++ rest) = .ok final := (walk_through one rest).trans two

-- Without links, a walk ends where the text of the path says.
theorem walk_lexical {place final : Location} {names : List Text}
    (walked : disk.walk place names = .ok final) : names.foldl Location.step place = final := by
  induction names generalizing place with
  | nil =>
    cases walked
    rfl
  | cons name names ih =>
    obtain ⟨_,⟨rfl,rest⟩ | ⟨other,_,_,rest⟩⟩ := walk_cons.mp walked
    · rw [List.foldl_cons,Location.step,if_pos rfl,ih rest]
    · rw [List.foldl_cons,Location.step,if_neg other,ih rest]

theorem locate_eq_ok_iff {path : Path} {place : Location} : disk.locate path = .ok place ↔
    Utf8.size path.text ≤ pathLimit ∧ disk.walk (disk.start path) path.names = .ok place := by
  unfold locate
  split
  · rename_i long
    exact ⟨(nomatch ·),fun both => absurd both.1 (Nat.not_le_of_gt long)⟩
  · rename_i short
    exact ⟨fun walked => ⟨Nat.le_of_not_gt short,walked⟩,fun both => both.2⟩

theorem isFile_iff {path : Path} : disk.isFile path = true ↔ (path.holdsNul = false ∧
    Utf8.size path.text ≤ pathLimit) ∧ ∃ final bytes mode,
      disk.walk (disk.start path) path.names = .ok final ∧
        disk.entry? final = some (.file bytes mode) := by
  unfold isFile
  constructor
  · intro file
    split at file
    · rename_i final bytes mode found
      obtain ⟨plain,located,stands⟩ := find_eq_ok_iff.mp found
      obtain ⟨short,walked⟩ := locate_eq_ok_iff.mp located
      exact ⟨⟨plain,short⟩,final,bytes,mode,walked,stands⟩
    · cases file
  · rintro ⟨⟨plain,short⟩,final,bytes,mode,walked,stands⟩
    rw [find_eq_ok_iff.mpr ⟨plain,locate_eq_ok_iff.mpr ⟨short,walked⟩,stands⟩]

theorem mem_of_stands {place : Location} {entry : Entry} (named : place ≠ [])
    (stands : disk.entry? place = some entry) : (place,entry) ∈ disk.entries := by
  rw [stands_named named] at stands
  obtain ⟨before,after,shape,_⟩ := List.lookup_eq_some_iff.mp stands
  rw [shape]
  simp

theorem Sound.stands_of_mem (sound : disk.Sound) {place : Location} {entry : Entry}
    (member : (place,entry) ∈ disk.entries) : disk.entry? place = some entry := by
  obtain ⟨folder,name,rfl,_,_⟩ := sound.inside place entry member
  obtain ⟨before,after,shape⟩ := List.append_of_mem member
  rw [stands_named (by simp),List.lookup_eq_some_iff]
  refine ⟨before,after,shape,fun other earlier => ?_⟩
  have distinct := sound.distinct
  rw [shape,List.map_append,List.nodup_append] at distinct
  have apart := distinct.2.2 other.1 (List.mem_map_of_mem earlier) (folder ++ [name]) (by simp)
  simpa using Ne.symm apart

theorem Sound.step (sound : disk.Sound) {folder : Location} {name : Text} {entry : Entry}
    (stands : disk.entry? (folder ++ [name]) = some entry) :
    disk.entry? folder = some .folder ∧ Entry.Named name := by
  obtain ⟨above,last,shape,named,inside⟩ :=
    sound.inside _ entry (mem_of_stands (by simp) stands)
  obtain ⟨rfl,rfl⟩ := List.append_singleton_inj.mp shape
  exact ⟨inside,named⟩

theorem Sound.above (sound : disk.Sound) {place : Location} {names : List Text} {entry : Entry}
    (stands : disk.entry? (place ++ names) = some entry) (further : names ≠ []) :
    disk.entry? place = some .folder := by
  induction names using List.reverseRecOn generalizing entry with
  | nil => exact absurd rfl further
  | append_singleton names name ih =>
    rw [← List.append_assoc] at stands
    have folder := (sound.step stands).1
    by_cases last : names = []
    · rwa [last,List.append_nil] at folder
    · exact ih folder last

theorem Sound.named (sound : disk.Sound) {place : Location} {entry : Entry}
    (stands : disk.entry? place = some entry) : ∀ name ∈ place, Entry.Named name := by
  induction place using List.reverseRecOn generalizing entry with
  | nil => simp
  | append_singleton folder name ih =>
    obtain ⟨inside,named⟩ := sound.step stands
    intro other member
    rcases List.mem_append.mp member with front | last
    · exact ih inside other front
    · rw [List.mem_singleton.mp last]
      exact named

theorem sound_iff : disk.Sound ↔ disk.entry? disk.here = some .folder ∧
    (disk.entries.map Prod.fst).Nodup ∧ ∀ entry ∈ disk.entries, ∃ name ∈ entry.1.getLast?,
      Entry.Named name ∧ disk.entry? entry.1.dropLast = some .folder := by
  constructor
  · intro sound
    refine ⟨sound.here,sound.distinct,fun entry member => ?_⟩
    obtain ⟨folder,name,shape,named,inside⟩ := sound.inside entry.1 entry.2 member
    rw [shape,List.getLast?_concat,List.dropLast_concat]
    exact ⟨name,rfl,named,inside⟩
  · rintro ⟨here,distinct,inside⟩
    refine ⟨here,distinct,fun place entry member => ?_⟩
    obtain ⟨name,last,named,above⟩ := inside _ member
    obtain ⟨folder,rfl⟩ := List.getLast?_eq_some_iff.mp last
    rw [List.dropLast_concat] at above
    exact ⟨folder,name,rfl,named,above⟩

instance (disk : Disk) : Decidable disk.Sound := decidable_of_iff _ sound_iff.symm

theorem Sound.walk_below (sound : disk.Sound) {place : Location} {names : List Text} {entry : Entry}
    (stands : disk.entry? (place ++ names) = some entry) :
    disk.walk place names = .ok (place ++ names) := by
  induction names generalizing place with
  | nil => rw [List.append_nil,walk]
  | cons name names ih =>
    have folder := sound.above stands (by simp)
    have named : Entry.Named name := sound.named stands name (by simp)
    have split : place ++ name :: names = (place ++ [name]) ++ names := by simp
    rw [split] at stands ⊢
    have next : (disk.entry? (place ++ [name])).isSome := by
      by_cases last : names = []
      · rw [last,List.append_nil] at stands
        rw [stands]
        rfl
      · rw [sound.above stands last]
        rfl
    exact walk_cons.mpr ⟨folder,.inr ⟨named.other.2,named.short,next,ih stands⟩⟩

-- One disk keeps what stands on another: at the same places, entries of the
-- same kinds.
structure Keeps (one other : Disk) : Prop where
  here : one.here = other.here
  entries : ∀ place entry, one.entry? place = some entry →
    ∃ next, other.entry? place = some next ∧ next.isFolder = entry.isFolder

theorem Keeps.folder {one other : Disk} (keeps : one.Keeps other) {place : Location}
    (folder : one.entry? place = some .folder) : other.entry? place = some .folder := by
  obtain ⟨entry,stands,kind⟩ := keeps.entries place .folder folder
  cases entry with
  | folder => exact stands
  | file bytes mode => cases kind

theorem Keeps.isSome {one other : Disk} (keeps : one.Keeps other) {place : Location}
    (stands : (one.entry? place).isSome) : (other.entry? place).isSome := by
  obtain ⟨entry,same⟩ := Option.isSome_iff_exists.mp stands
  obtain ⟨next,there,_⟩ := keeps.entries place entry same
  rw [there]
  rfl

theorem Keeps.walk {one other : Disk} (keeps : one.Keeps other) {place final : Location}
    {names : List Text} (walked : one.walk place names = .ok final) :
    other.walk place names = .ok final := by
  induction names generalizing place with
  | nil => exact walked
  | cons name names ih =>
    obtain ⟨folder,dots | ⟨apart,short,next,rest⟩⟩ := walk_cons.mp walked
    · exact walk_cons.mpr ⟨keeps.folder folder,.inl ⟨dots.1,ih dots.2⟩⟩
    · exact walk_cons.mpr ⟨keeps.folder folder,.inr ⟨apart,short,keeps.isSome next,ih rest⟩⟩

theorem Keeps.start {one other : Disk} (keeps : one.Keeps other) (path : Path) :
    one.start path = other.start path := by
  unfold Disk.start
  rw [keeps.here]

theorem Keeps.locate {one other : Disk} (keeps : one.Keeps other) {path : Path} {place : Location}
    (located : one.locate path = .ok place) : other.locate path = .ok place := by
  obtain ⟨short,walked⟩ := locate_eq_ok_iff.mp located
  exact locate_eq_ok_iff.mpr ⟨short,keeps.start path ▸ keeps.walk walked⟩

-- Whether a path names a file depends on the kinds of entries alone.
theorem Keeps.isFile {one other : Disk} (keeps : one.Keeps other) {path : Path}
    (file : one.isFile path = true) : other.isFile path = true := by
  obtain ⟨usable,final,bytes,mode,walked,stands⟩ := isFile_iff.mp file
  obtain ⟨next,there,kind⟩ := keeps.entries final _ stands
  cases next with
  | folder => cases kind
  | file nextBytes nextMode =>
    exact isFile_iff.mpr ⟨usable,final,nextBytes,nextMode,keeps.start path ▸ keeps.walk walked,there⟩

theorem Keeps.isFile_eq {one other : Disk} (forth : one.Keeps other) (back : other.Keeps one)
    (path : Path) : one.isFile path = other.isFile path :=
  Bool.eq_iff_iff.mpr ⟨forth.isFile,back.isFile⟩

end Plainmark.Disk
