import Plainmark.Proofs.Directories

namespace Plainmark.Disk
open Text
variable {disk : Disk} {path : Path} {folder temporary : Location} {name tag text : Text}

-- What it takes to put a text where a path says: a folder above it, no folder in
-- its place, and room for the temporary file and for the path itself.
structure Replaceable (disk : Disk) (tag : Text) (path : Path) : Prop where
  above : ∃ folder, disk.find path.parent = .ok (folder,.folder)
  free : ∀ place, disk.find path ≠ .ok (place,.folder)
  roomy : ¬ disk.Crowded tag path
  spelled : Utf8.size path.text ≤ pathLimit

-- A text that has taken its place: the path names a file that holds its bytes, with
-- the mode of the file before it or that of a new one, and at every other place
-- stands what stood there.
structure Replaced (disk : Disk) (path : Path) (text : Text) (written : Disk) : Prop where
  here : written.here = disk.here
  stands : ∃ place mode, written.find path = .ok (place,.file (Utf8.encode text) mode) ∧
    (∀ there bytes old, disk.find path = .ok (there,.file bytes old) → mode = old) ∧
    ((∃ trouble, disk.find path = .error trouble) → mode = 0o600) ∧
    ∀ other, other ≠ place → written.entry? other = disk.entry? other

structure Beside (disk : Disk) (temporary : Location) (other : Disk) : Prop where
  here : other.here = disk.here
  added : ∃ bytes mode, other.entry? temporary = some (.file bytes mode)
  kept : ∀ place, place ≠ temporary → other.entry? place = disk.entry? place

theorem Beside.opened {other : Disk} {place : Location} (beside : disk.Beside temporary other)
    (inside : other.entry? place = some .folder) : disk.entry? place = some .folder := by
  by_cases same : place = temporary
  · obtain ⟨bytes,mode,file⟩ := beside.added
    subst same
    cases file.symm.trans inside
  · exact (beside.kept place same).symm.trans inside

theorem Beside.walk {other : Disk} {place final : Location} {names : List Text}
    (beside : disk.Beside temporary other) (walked : other.walk place names = .ok final)
    (opened : other.entry? final = some .folder) : disk.walk place names = .ok final := by
  induction names generalizing place with
  | nil => exact walked
  | cons name names ih =>
    obtain ⟨inside,dots | ⟨proper,short,next,onward⟩⟩ := walk_cons.mp walked
    · exact walk_cons.mpr ⟨beside.opened inside,.inl ⟨dots.1,ih dots.2⟩⟩
    · have apart : place ++ [name] ≠ temporary := by
        intro same
        obtain ⟨bytes,mode,file⟩ := beside.added
        cases names with
        | nil =>
          obtain rfl := Except.ok.inj onward
          cases opened.symm.trans (same ▸ file)
        | cons further names =>
          have through := (walk_cons.mp onward).1
          cases through.symm.trans (same ▸ file)
      rw [beside.kept _ apart] at next
      exact walk_cons.mpr ⟨beside.opened inside,.inr ⟨proper,short,next,ih onward⟩⟩

theorem Beside.find_folder {other : Disk} (beside : disk.Beside temporary other)
    (plain : path.holdsNul = false) (located : other.locate path = .ok folder)
    (opened : other.entry? folder = some .folder) : disk.find path = .ok (folder,.folder) := by
  obtain ⟨short,walked⟩ := locate_eq_ok_iff.mp located
  have start : other.start path = disk.start path := by rw [start,start,beside.here]
  rw [start] at walked
  exact find_eq_ok_iff.mpr ⟨plain,locate_eq_ok_iff.mpr ⟨short,beside.walk walked opened⟩,
    beside.opened opened⟩

theorem erase_set {place : Location} (named : place ≠ []) (unused : disk.entry? place = none)
    (entry : Entry) : (disk.set place entry).erase place = disk := by
  rw [stands_named named,List.lookup_eq_none_iff] at unused
  have others : disk.entries.filter (fun other => other.1 ≠ place) = disk.entries := by
    refine List.filter_eq_self.mpr fun other member => ?_
    have apart := unused other member
    simpa using Ne.symm (by simpa using apart)
  rw [erase,set,List.filter_cons_of_neg (by simp),others,others]

theorem temporaryPlace_ne_nil : disk.temporaryPlace tag path ≠ [] := by
  simp [temporaryPlace]

theorem createTemporary_ok {bytes : Bytes} {created : Disk}
    (creates : disk.createTemporary tag path bytes = .ok created) :
    ¬ disk.Crowded tag path ∧
      created = disk.set (disk.temporaryPlace tag path) (.file bytes 0o600) := by
  unfold createTemporary at creates
  dsimp only at creates
  split at creates
  · cases creates
  · split at creates
    · cases creates
    · rename_i near
      split at creates
      · cases creates
      · split at creates
        · split at creates
          · cases creates
          · rename_i short
            cases creates
            exact ⟨not_or.mpr ⟨short,near⟩,rfl⟩
        · cases creates
        · cases creates

theorem replace_failed {trouble : Trouble}
    (unused : disk.entry? (disk.temporaryPlace tag path) = none)
    (failed : (disk.replace tag path text).2 = .error trouble) :
    disk.replace tag path text = (disk,.error trouble) := by
  unfold replace at failed ⊢
  cases creates : disk.createTemporary tag path (Utf8.encode text) with
  | error cause =>
    rw [creates] at failed
    cases failed
    rfl
  | ok created =>
    obtain ⟨_,rfl⟩ := createTemporary_ok creates
    rw [creates] at failed
    dsimp only at failed ⊢
    split at failed
    · cases failed
    · rename_i cause fails
      cases failed
      rw [erase_set temporaryPlace_ne_nil unused]

theorem beside_set (disk : Disk) {place : Location} (named : place ≠ []) (bytes : Bytes) (mode : Nat) :
    disk.Beside place (disk.set place (.file bytes mode)) := by
  refine ⟨rfl,⟨bytes,mode,?_⟩,?_⟩
  · exact (stands_set named disk _ place).trans (if_pos rfl)
  · intro other apart
    exact (stands_set named disk _ other).trans (if_neg apart)

theorem Beside.setMode {other : Disk} (beside : disk.Beside temporary other) (named : temporary ≠ [])
    (mode : Nat) : disk.Beside temporary (other.setMode temporary mode) := by
  obtain ⟨bytes,old,file⟩ := beside.added
  unfold Disk.setMode
  rw [file]
  have next := beside_set other named bytes mode
  exact ⟨beside.here,next.added,fun place apart =>
    (next.kept place apart).trans (beside.kept place apart)⟩

theorem Beside.copyMode {other marked : Disk} (beside : disk.Beside temporary other)
    (named : temporary ≠ []) (copies : other.copyMode temporary path = .ok marked) :
    disk.Beside temporary marked := by
  unfold Disk.copyMode at copies
  cases settled : settle (other.find path) with
  | error trouble =>
    rw [settled] at copies
    cases copies
  | ok answer =>
    rw [settled] at copies
    simp only [bind,Except.bind] at copies
    split at copies
    · cases copies
      exact beside.setMode named _
    · cases copies
      exact beside

theorem copyMode_spelled {marked : Disk} (plain : path.holdsNul = false)
    (copies : disk.copyMode temporary path = .ok marked) : Utf8.size path.text ≤ pathLimit := by
  by_contra long
  have unfound : disk.find path = .error (.access .nameTooLong path) := by
    unfold find locate
    rw [plain,if_pos (Nat.lt_of_not_le long)]
    rfl
  rw [Disk.copyMode,unfound] at copies
  cases copies

theorem moveOver_ok {written : Disk} (moves : disk.moveOver temporary path = .ok written) :
    ∃ folder name, disk.locate path.parent = .ok folder ∧ disk.entry? folder = some .folder ∧
      path.names.getLast? = some name ∧ disk.entry? (folder ++ [name]) ≠ some .folder := by
  unfold moveOver at moves
  dsimp only at moves
  split at moves
  · cases moves
  · rename_i folder located
    split at moves
    · rename_i name inside last
      split at moves
      · cases moves
      · split at moves
        · cases moves
        · rename_i free
          exact ⟨folder,name,located,inside,last,free⟩
        · cases moves
    · cases moves
    · cases moves
    · cases moves

theorem replaceable_of_ok (sound : disk.Sound) (plain : path.holdsNul = false)
    (last : path.names.getLast? = some name) (proper : name ≠ Path.dots)
    (replaced : (disk.replace tag path text).2 = .ok ()) : disk.Replaceable tag path := by
  unfold replace at replaced
  cases creates : disk.createTemporary tag path (Utf8.encode text) with
  | error cause =>
    rw [creates] at replaced
    cases replaced
  | ok created =>
    obtain ⟨roomy,rfl⟩ := createTemporary_ok creates
    rw [creates] at replaced
    dsimp only at replaced
    cases copies : (disk.set (disk.temporaryPlace tag path) (.file (Utf8.encode text) 0o600)).copyMode
        (disk.temporaryPlace tag path) path with
    | error cause =>
      rw [copies] at replaced
      cases replaced
    | ok marked =>
      rw [copies] at replaced
      cases moves : marked.moveOver (disk.temporaryPlace tag path) path with
      | error cause =>
        simp only [bind,Except.bind,moves] at replaced
        cases replaced
      | ok written =>
        have beside := (beside_set _ temporaryPlace_ne_nil _ _).copyMode temporaryPlace_ne_nil copies
        obtain ⟨folder,other,located,inside,again,free⟩ := moveOver_ok moves
        obtain rfl := Option.some.inj (last.symm.trans again)
        have above := beside.find_folder (plain_parent plain) located inside
        have spelled := copyMode_spelled plain copies
        have headed := sound.headed plain last proper above
        refine ⟨⟨folder,above⟩,?_,roomy,spelled⟩
        intro place found
        rw [headed.find_eq spelled (headed.short_of_roomy roomy)] at found
        cases stands : disk.entry? (folder ++ [name]) with
        | none =>
          rw [stands] at found
          cases found
        | some entry =>
          rw [stands] at found
          cases found
          have apart : folder ++ [name] ≠ disk.temporaryPlace tag path := by
            rw [headed.temporaryPlace_eq]
            exact temporaryPlace_apart folder tag name
          exact free ((beside.kept _ apart).trans stands)

theorem Headed.written {written : Disk} {bytes : Bytes} {mode : Nat}
    (headed : disk.Headed path folder name) (here : written.here = disk.here)
    (entries : ∀ place, written.entry? place =
      if place = folder ++ [name] then some (.file bytes mode) else disk.entry? place)
    (free : disk.entry? (folder ++ [name]) ≠ some .folder) : written.Headed path folder name := by
  have keeps : disk.Keeps written := by
    refine ⟨here.symm,fun place entry stands => ?_⟩
    rw [entries]
    by_cases same : place = folder ++ [name]
    · rw [if_pos same]
      cases entry with
      | folder => exact absurd (same ▸ stands) free
      | file old before => exact ⟨_,rfl,rfl⟩
    · rw [if_neg same]
      exact ⟨entry,stands,rfl⟩
  exact keeps.headed headed

-- All of a text takes its place or nothing changes: it does where the path has all
-- that it takes, and otherwise the disk is the one from before.
theorem replaced_or_untouched (disk : Disk) (tag : Text) (path : Path) (name text : Text)
    (sound : disk.Sound) (plain : path.holdsNul = false) (last : path.names.getLast? = some name)
    (proper : name ≠ Path.dots) (unused : disk.entry? (disk.temporaryPlace tag path) = none) :
    (disk.Replaceable tag path → ∃ written, disk.replace tag path text = (written,.ok ()) ∧
      disk.Replaced path text written) ∧
    (¬ disk.Replaceable tag path → ∃ trouble,
      disk.replace tag path text = (disk,.error trouble)) := by
  constructor
  · intro replaceable
    obtain ⟨folder,above⟩ := replaceable.above
    have headed := sound.headed plain last proper above
    have short := headed.short_of_roomy replaceable.roomy
    have found := headed.find_eq replaceable.spelled short
    have free : disk.entry? (folder ++ [name]) ≠ some .folder := by
      intro stands
      rw [stands] at found
      exact replaceable.free _ found
    rw [headed.temporaryPlace_eq] at unused
    obtain ⟨written,replaced,here,entries⟩ :=
      headed.replace_eq replaceable.spelled free unused replaceable.roomy text
    have target := (entries (folder ++ [name])).trans (if_pos rfl)
    have reread := (headed.written here entries free).find_eq replaceable.spelled short
    rw [target] at reread
    refine ⟨written,replaced,here,folder ++ [name],_,reread,?_,?_,?_⟩
    · intro there bytes old before
      cases stands : disk.entry? (folder ++ [name]) with
      | none =>
        rw [stands] at found
        cases found.symm.trans before
      | some entry =>
        rw [stands] at found
        cases found.symm.trans before
        rfl
    · intro missing
      obtain ⟨trouble,unfound⟩ := missing
      cases stands : disk.entry? (folder ++ [name]) with
      | none => rfl
      | some entry =>
        rw [stands] at found
        cases found.symm.trans unfound
    · intro other apart
      exact (entries other).trans (if_neg apart)
  · intro lacking
    cases answers : (disk.replace tag path text).2 with
    | ok done => exact absurd (replaceable_of_ok sound plain last proper answers) lacking
    | error trouble => exact ⟨trouble,replace_failed unused answers⟩

def freshPage : Path := ⟨.relative,[Job.pagesFolder,"new.md".toList]⟩

theorem fresh_page_replaced : Job.pages.Sound ∧ freshPage.holdsNul = false ∧
    freshPage.names.getLast? = some "new.md".toList ∧ "new.md".toList ≠ Path.dots ∧
      Job.pages.entry? (Job.pages.temporaryPlace Job.pagesTag freshPage) = none ∧
        Job.pages.Replaceable Job.pagesTag freshPage ∧ ∃ written,
          Job.pages.replace Job.pagesTag freshPage "new\n".toList = (written,.ok ()) ∧
            Job.pages.Replaced freshPage "new\n".toList written := by
  have sound : Job.pages.Sound := by decide +kernel
  have plain : freshPage.holdsNul = false := by decide +kernel
  have last : freshPage.names.getLast? = some "new.md".toList := by decide +kernel
  have proper : "new.md".toList ≠ Path.dots := by decide +kernel
  have unused : Job.pages.entry? (Job.pages.temporaryPlace Job.pagesTag freshPage) = none := by
    decide +kernel
  have unfound : Job.pages.find freshPage = .error (.access .missing freshPage) := by
    decide +kernel
  have replaceable : Job.pages.Replaceable Job.pagesTag freshPage := by
    refine ⟨⟨[Job.pagesFolder],?_⟩,?_,?_,?_⟩
    · decide +kernel
    · intro place found
      cases unfound.symm.trans found
    · decide +kernel
    · decide +kernel
  obtain ⟨settled,_⟩ := replaced_or_untouched Job.pages Job.pagesTag freshPage "new.md".toList
    "new\n".toList sound plain last proper unused
  exact ⟨sound,plain,last,proper,unused,replaceable,settled replaceable⟩

-- A folder above, a short name and nothing in the place: a long way to the folder,
-- or a folder far down, still leaves no room for the whole path.
def farPage : Path := ⟨.relative,Job.detour.names ++ [List.replicate 30 'n' ++ ".md".toList]⟩

theorem path_lengths_bound_replacements :
    (Job.cabinet.Sound ∧ Job.cabinet.find farPage.parent = .ok ([Job.aisle],.folder) ∧
      Utf8.size (temporaryName Job.pagesTag farPage.name) ≤ nameLimit ∧
        Job.cabinet.entry? ([Job.aisle] ++ [farPage.name]) = none ∧
          Job.cabinet.replace Job.pagesTag farPage ['x'] =
            (Job.cabinet,.error (.access .nameTooLong farPage))) ∧
    (Job.cellar.Sound ∧
      Job.cellar.find (Path.parent ⟨.relative,[Job.label]⟩) =
        .ok (List.replicate 20 Job.aisle,.folder) ∧
      Utf8.size (temporaryName Job.pagesTag Job.label) ≤ nameLimit ∧
        (∃ bytes mode, Job.cellar.find ⟨.relative,[Job.label]⟩ =
          .ok (List.replicate 20 Job.aisle ++ [Job.label],.file bytes mode)) ∧
        (Job.cellar.replace Job.pagesTag ⟨.relative,[Job.label]⟩ ['x']) = (Job.cellar,
          .error (.writing .nameTooLong ⟨.root,List.replicate 20 Job.aisle ++
            [temporaryName Job.pagesTag Job.label]⟩ none))) := by
  refine ⟨by decide +kernel,by decide +kernel,by decide +kernel,by decide +kernel,
    ⟨Utf8.encode "![](b)".toList,0o644,by decide +kernel⟩,by decide +kernel⟩

end Plainmark.Disk
