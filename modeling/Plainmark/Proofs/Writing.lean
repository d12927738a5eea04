import Plainmark.Proofs.Paths
import Plainmark.Proofs.Trees

namespace Plainmark.Disk
open Text
variable {disk : Disk} {path : Path} {folder : Location} {name : Text}

structure Headed (disk : Disk) (path : Path) (folder : Location) (name : Text) : Prop where
  plain : path.holdsNul = false
  above : disk.locate path.parent = .ok folder
  last : path.names.getLast? = some name
  proper : name ≠ Path.dots
  opened : disk.walk [] folder = .ok folder
  inside : disk.entry? folder = some .folder

-- A path that leads to a name in a folder, by way of the folder's own path.
structure Reached (disk : Disk) (path : Path) (folder : Location) (name : Text) : Prop where
  plain : path.holdsNul = false
  there : disk.locate path = .ok (folder ++ [name])
  above : disk.locate path.parent = .ok folder
  last : path.names.getLast? = some name
  proper : name ≠ Path.dots
  opened : disk.walk [] folder = .ok folder
  inside : disk.entry? folder = some .folder

-- The temporary file has no place: its own name or its whole path is too long.
def Crowded (disk : Disk) (tag : Text) (path : Path) : Prop :=
  nameLimit < Utf8.size (temporaryName tag path.name) ∨
    pathLimit < Utf8.size (disk.temporaryPath tag path).text

instance (disk : Disk) (tag : Text) (path : Path) : Decidable (disk.Crowded tag path) :=
  inferInstanceAs (Decidable (_ ∨ _))

def passedMode : Option Entry → Nat
  | some (.file _ mode) => mode
  | _ => 0o600

theorem Reached.headed (reached : disk.Reached path folder name) : disk.Headed path folder name :=
  ⟨reached.plain,reached.above,reached.last,reached.proper,reached.opened,reached.inside⟩

theorem plain_parent (plain : path.holdsNul = false) : path.parent.holdsNul = false := by
  rw [Path.holdsNul,List.any_eq_false] at plain ⊢
  exact fun name member => plain name (List.dropLast_subset _ member)

theorem Sound.headed (sound : disk.Sound) (plain : path.holdsNul = false)
    (last : path.names.getLast? = some name) (proper : name ≠ Path.dots)
    (above : disk.find path.parent = .ok (folder,.folder)) : disk.Headed path folder name := by
  obtain ⟨_,located,inside⟩ := find_eq_ok_iff.mp above
  have opened : disk.entry? ([] ++ folder) = some .folder := inside
  exact ⟨plain,located,last,proper,sound.walk_below opened,inside⟩

theorem Keeps.headed {other : Disk} (keeps : disk.Keeps other)
    (headed : disk.Headed path folder name) : other.Headed path folder name :=
  ⟨headed.plain,keeps.locate headed.above,headed.last,headed.proper,keeps.walk headed.opened,
    keeps.folder headed.inside⟩

theorem Keeps.reached {other : Disk} (keeps : disk.Keeps other)
    (reached : disk.Reached path folder name) : other.Reached path folder name :=
  ⟨reached.plain,keeps.locate reached.there,keeps.locate reached.above,reached.last,
    reached.proper,keeps.walk reached.opened,keeps.folder reached.inside⟩

theorem keeps_set {place : Location} (named : place ≠ []) (unused : disk.entry? place = none)
    (entry : Entry) : disk.Keeps (disk.set place entry) := by
  refine ⟨rfl,fun other found stands => ⟨found,?_,rfl⟩⟩
  have apart : other ≠ place := by
    rintro rfl
    rw [unused] at stands
    cases stands
  rw [stands_set named,if_neg apart,stands]

theorem size_temporaryName (tag name : Text) :
    Utf8.size (temporaryName tag name) = Utf8.size name + Utf8.size tag + 6 := by
  have dot : Utf8.size ['.'] = 1 := rfl
  have ending : Utf8.size ".tmp".toList = 4 := rfl
  simp only [temporaryName,Utf8.size_append,dot,ending]
  omega

theorem temporaryPlace_apart (folder : Location) (tag name : Text) :
    folder ++ [name] ≠ folder ++ [temporaryName tag name] := by
  intro same
  have sizes := size_temporaryName tag name
  rw [← (List.append_singleton_inj.mp same).2] at sizes
  omega

theorem Headed.name_eq (headed : disk.Headed path folder name) : path.name = name := by
  rw [Path.name,headed.last]
  rfl

theorem Headed.temporaryPlace_eq (headed : disk.Headed path folder name) (tag : Text) :
    disk.temporaryPlace tag path = folder ++ [temporaryName tag name] := by
  obtain ⟨_,walked⟩ := locate_eq_ok_iff.mp headed.above
  have lexical := walk_lexical walked
  rw [temporaryPlace,headed.name_eq,← lexical]
  rfl

theorem Headed.short_of_roomy {tag : Text} (headed : disk.Headed path folder name)
    (roomy : ¬ disk.Crowded tag path) : Utf8.size name ≤ nameLimit := by
  have fits : ¬ nameLimit < Utf8.size (temporaryName tag name) := by
    rw [← headed.name_eq]
    exact (not_or.mp roomy).1
  have sizes := size_temporaryName tag name
  omega

theorem Headed.createTemporary_eq (headed : disk.Headed path folder name) (tag : Text)
    (bytes : Bytes) : disk.createTemporary tag path bytes =
      if disk.Crowded tag path then
        .error (.writing .nameTooLong (disk.temporaryPath tag path) none)
      else .ok (disk.set (folder ++ [temporaryName tag name]) (.file bytes 0o600)) := by
  unfold createTemporary
  rw [headed.temporaryPlace_eq,headed.plain]
  simp only [Bool.false_eq_true,if_false,List.dropLast_concat,headed.opened,headed.inside]
  by_cases long : pathLimit < Utf8.size (disk.temporaryPath tag path).text
  · have crowded : disk.Crowded tag path := .inr long
    rw [if_pos long,if_pos crowded]
  · rw [if_neg long]
    by_cases wide : nameLimit < Utf8.size (temporaryName tag path.name)
    · have crowded : disk.Crowded tag path := .inl wide
      rw [if_pos wide,if_pos crowded]
    · have roomy : ¬ disk.Crowded tag path := not_or.mpr ⟨wide,long⟩
      rw [if_neg wide,if_neg roomy]

theorem find_reached {entry : Entry} (reached : disk.Reached path folder name)
    (stands : disk.entry? (folder ++ [name]) = some entry) :
    disk.find path = .ok (folder ++ [name],entry) :=
  find_eq_ok_iff.mpr ⟨reached.plain,reached.there,stands⟩

theorem Headed.find_eq (headed : disk.Headed path folder name)
    (spelled : Utf8.size path.text ≤ pathLimit) (short : Utf8.size name ≤ nameLimit) :
    disk.find path = match disk.entry? (folder ++ [name]) with
      | some entry => .ok (folder ++ [name],entry)
      | none => .error (.access .missing path) := by
  obtain ⟨front,shape⟩ := List.getLast?_eq_some_iff.mp headed.last
  have walked : disk.walk (disk.start path) front = .ok folder := by
    have above := (locate_eq_ok_iff.mp headed.above).2
    rw [Path.parent,shape,List.dropLast_concat] at above
    exact above
  have located : disk.locate path = disk.walk folder [name] := by
    rw [locate,if_neg (Nat.not_lt.mpr spelled),shape,walk_through walked]
  rw [find,headed.plain,located]
  simp only [Bool.false_eq_true,if_false,walk,headed.inside,if_neg headed.proper,
    if_neg (Nat.not_lt.mpr short)]
  cases stands : disk.entry? (folder ++ [name]) with
  | none => rfl
  | some entry => simp only [Option.isNone_some,Bool.false_eq_true,if_false,stands]

theorem Headed.copyMode_eq (headed : disk.Headed path folder name)
    (spelled : Utf8.size path.text ≤ pathLimit) (short : Utf8.size name ≤ nameLimit)
    (temporary : Location) : disk.copyMode temporary path =
      .ok (match disk.entry? (folder ++ [name]) with
        | some (.file _ mode) => disk.setMode temporary mode
        | _ => disk) := by
  rw [copyMode,headed.find_eq spelled short]
  cases disk.entry? (folder ++ [name]) with
  | none => rfl
  | some entry => cases entry <;> rfl

theorem Headed.moveOver_eq {entry : Entry} {temporary : Location}
    (headed : disk.Headed path folder name)
    (free : disk.entry? (folder ++ [name]) ≠ some .folder)
    (ready : disk.entry? temporary = some entry) : disk.moveOver temporary path =
      .ok ((disk.set (folder ++ [name]) entry).erase temporary) := by
  rw [moveOver,headed.above]
  simp only [headed.inside,headed.last,if_neg headed.proper,ready]

theorem replace_crowded {tag : Text} (reached : disk.Reached path folder name)
    (crowded : disk.Crowded tag path) (text : Text) : disk.replace tag path text =
      (disk,.error (.writing .nameTooLong (disk.temporaryPath tag path) none)) := by
  rw [replace,reached.headed.createTemporary_eq,if_pos crowded]

theorem Headed.copyMode_created {tag : Text} (bytes : Bytes)
    (headed : disk.Headed path folder name) (spelled : Utf8.size path.text ≤ pathLimit)
    (short : Utf8.size name ≤ nameLimit)
    (unused : disk.entry? (folder ++ [temporaryName tag name]) = none) :
    let temporary := folder ++ [temporaryName tag name]
    ∃ marked, (disk.set temporary (.file bytes 0o600)).copyMode temporary path = .ok marked ∧
      marked.here = disk.here ∧
        marked.entry? temporary =
          some (.file bytes (passedMode (disk.entry? (folder ++ [name])))) ∧
        ∀ place, place ≠ temporary → marked.entry? place = disk.entry? place := by
  intro temporary
  have named : temporary ≠ [] := by simp [temporary]
  have apart : folder ++ [name] ≠ temporary := temporaryPlace_apart folder tag name
  let created := disk.set temporary (.file bytes 0o600)
  have there : created.Headed path folder name := (keeps_set named unused _).headed headed
  have target : created.entry? (folder ++ [name]) = disk.entry? (folder ++ [name]) := by
    rw [stands_set named,if_neg apart]
  have ready : created.entry? temporary = some (.file bytes 0o600) := by
    rw [stands_set named,if_pos rfl]
  have others : ∀ place, place ≠ temporary → created.entry? place = disk.entry? place := by
    intro place other
    rw [stands_set named,if_neg other]
  have copied := there.copyMode_eq spelled short temporary
  rw [target] at copied
  cases stands : disk.entry? (folder ++ [name]) with
  | none =>
    rw [stands] at copied
    exact ⟨created,copied,rfl,ready,others⟩
  | some entry =>
    rw [stands] at copied
    cases entry with
    | folder => exact ⟨created,copied,rfl,ready,others⟩
    | file old mode =>
      simp only [setMode,ready] at copied
      refine ⟨created.set temporary (.file bytes mode),copied,rfl,?_,?_⟩
      · rw [stands_set named,if_pos rfl]
        rfl
      · intro place other
        rw [stands_set named,if_neg other]
        exact others place other

-- A text with room for its temporary file takes its place in full, whether a file
-- stands there or none, and all other places are as they were.
theorem Headed.replace_eq {tag : Text} (headed : disk.Headed path folder name)
    (spelled : Utf8.size path.text ≤ pathLimit)
    (free : disk.entry? (folder ++ [name]) ≠ some .folder)
    (unused : disk.entry? (folder ++ [temporaryName tag name]) = none)
    (roomy : ¬ disk.Crowded tag path) (text : Text) :
    ∃ written, disk.replace tag path text = (written,.ok ()) ∧ written.here = disk.here ∧
      ∀ place, written.entry? place =
        if place = folder ++ [name] then
          some (.file (Utf8.encode text) (passedMode (disk.entry? (folder ++ [name]))))
        else disk.entry? place := by
  have target : folder ++ [name] ≠ [] := by simp
  have named : folder ++ [temporaryName tag name] ≠ [] := by simp
  have apart := temporaryPlace_apart folder tag name
  have short := headed.short_of_roomy roomy
  obtain ⟨marked,copied,here,ready,others⟩ :=
    headed.copyMode_created (Utf8.encode text) spelled short unused
  have keeps : disk.Keeps marked := by
    refine ⟨here.symm,fun place entry there => ⟨entry,?_,rfl⟩⟩
    rw [others place (fun same => by rw [same,unused] at there; cases there),there]
  have kept : marked.entry? (folder ++ [name]) ≠ some .folder := by rwa [others _ apart]
  have moved := (keeps.headed headed).moveOver_eq kept ready
  refine ⟨(marked.set (folder ++ [name]) (.file (Utf8.encode text)
    (passedMode (disk.entry? (folder ++ [name]))))).erase (folder ++ [temporaryName tag name]),?_,?_,?_⟩
  · rw [replace,headed.createTemporary_eq,if_neg roomy,headed.temporaryPlace_eq]
    simp only [bind,Except.bind,copied,moved]
  · exact here
  · intro place
    rw [stands_erase named,stands_set target]
    by_cases spare : place = folder ++ [temporaryName tag name]
    · rw [if_pos spare,if_neg (by rw [spare]; exact Ne.symm apart),spare,unused]
    · rw [if_neg spare,others place spare]

theorem replace_file {tag : Text} {old : Bytes} {mode : Nat}
    (reached : disk.Reached path folder name)
    (stands : disk.entry? (folder ++ [name]) = some (.file old mode))
    (unused : disk.entry? (folder ++ [temporaryName tag name]) = none)
    (roomy : ¬ disk.Crowded tag path) (text : Text) :
    ∃ written, disk.replace tag path text = (written,.ok ()) ∧ written.here = disk.here ∧
      ∀ place, written.entry? place =
        if place = folder ++ [name] then some (.file (Utf8.encode text) mode)
        else disk.entry? place := by
  have spelled := (locate_eq_ok_iff.mp reached.there).1
  have free : disk.entry? (folder ++ [name]) ≠ some .folder := by rw [stands]; nofun
  have replaced := reached.headed.replace_eq spelled free unused roomy text
  rw [stands] at replaced
  exact replaced

end Plainmark.Disk
