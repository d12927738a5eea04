import Mathlib.Data.List.Nodup
import Plainmark.Disk.Discovery
import Plainmark.Proofs.Writing

namespace Plainmark.Disk
open Text
variable {disk : Disk} {path : Path} {folder : Location}

def Spellable (disk : Disk) (path : Path) (folder : Location) : Prop :=
  ∀ names entry, disk.entry? (folder ++ names) = some entry →
    Utf8.size (Path.text ⟨path.anchor,path.names ++ names⟩) ≤ pathLimit

-- No document has the place of its temporary file taken: the tag is a new one.
def Untagged (disk : Disk) (tag : Text) (path : Path) : Prop :=
  ∀ paths, disk.discover path = .ok paths →
    ∀ listed ∈ paths, disk.entry? (disk.temporaryPlace tag listed) = none

structure Listed (disk : Disk) (tag : Text) (paths : List Path) : Prop where
  distinct : paths.Nodup
  apart : ∀ one ∈ paths, ∀ other ∈ paths, disk.locate one = disk.locate other → one = other
  files : ∀ path ∈ paths, ∃ folder name bytes mode, disk.Reached path folder name ∧
    disk.entry? (folder ++ [name]) = some (.file bytes mode)
  unused : ∀ path ∈ paths, disk.entry? (disk.temporaryPlace tag path) = none

theorem Listed.perm {tag : Text} {paths order : List Path} (listed : disk.Listed tag paths)
    (perm : order.Perm paths) : disk.Listed tag order :=
  ⟨perm.nodup_iff.mpr listed.distinct,
    fun one first other second =>
      listed.apart one (perm.mem_iff.mp first) other (perm.mem_iff.mp second),
    fun path member => listed.files path (perm.mem_iff.mp member),
    fun path member => listed.unused path (perm.mem_iff.mp member)⟩

theorem parent_concat (path : Path) (names : List Text) (name : Text) :
    Path.parent ⟨path.anchor,path.names ++ (names ++ [name])⟩ = ⟨path.anchor,path.names ++ names⟩ := by
  rw [Path.parent,← List.append_assoc,List.dropLast_concat]

theorem Sound.plain_below (sound : disk.Sound) (plain : path.holdsNul = false) {names : List Text}
    {entry : Entry} (stands : disk.entry? (folder ++ names) = some entry) :
    Path.holdsNul ⟨path.anchor,path.names ++ names⟩ = false := by
  have clean : ∀ name ∈ names, name.contains '\x00' = false := by
    intro name member
    have text := (sound.named stands name (List.mem_append_right _ member)).plain
    simpa using text
  rw [Path.holdsNul] at plain ⊢
  rw [List.any_append,plain,Bool.false_or,List.any_eq_false]
  intro name member
  rw [clean name member]
  decide

theorem Sound.reached (sound : disk.Sound) (found : disk.find path = .ok (folder,.folder))
    (spellable : disk.Spellable path folder) {names : List Text} {name : Text} {entry : Entry}
    (stands : disk.entry? (folder ++ (names ++ [name])) = some entry) :
    disk.Reached ⟨path.anchor,path.names ++ (names ++ [name])⟩ (folder ++ names) name := by
  obtain ⟨plain,located,open_⟩ := find_eq_ok_iff.mp found
  obtain ⟨_,walked⟩ := locate_eq_ok_iff.mp located
  have named := sound.named stands
  have split : folder ++ (names ++ [name]) = (folder ++ names) ++ [name] := by simp
  have inside : disk.entry? (folder ++ names) = some .folder := (sound.step (split ▸ stands)).1
  refine ⟨sound.plain_below plain stands,?_,?_,?_,?_,?_,inside⟩
  · rw [← split]
    exact locate_eq_ok_iff.mpr ⟨spellable _ _ stands,walk_append walked (sound.walk_below stands)⟩
  · rw [parent_concat]
    exact locate_eq_ok_iff.mpr ⟨spellable _ _ inside,walk_append walked (sound.walk_below inside)⟩
  · rw [← List.append_assoc,List.getLast?_concat]
  · exact (named name (by simp)).other.2
  · have stands : disk.entry? ([] ++ (folder ++ names)) = some .folder := inside
    exact sound.walk_below stands

theorem listed_place {place : Location} {entry : Entry} {names : List Text}
    (listed : (match entry,Location.below? folder place with
      | .file ..,some names => if names.getLast?.any isDocument then some names else none
      | _,_ => none) = some names) :
    (∃ bytes mode, entry = .file bytes mode) ∧ place = folder ++ names ∧
      names.getLast?.any isDocument = true := by
  cases entry with
  | folder => cases listed
  | file bytes mode =>
    cases below : Location.below? folder place with
    | none => simp [below] at listed
    | some inner =>
      simp only [below] at listed
      split at listed
      · rename_i document
        obtain rfl := Option.some.inj listed
        exact ⟨⟨bytes,mode,rfl⟩,Location.below?_eq_some_iff.mp below,document⟩
      · cases listed

theorem mem_documentsBelow_iff (sound : disk.Sound) {names : List Text} :
    names ∈ disk.documentsBelow folder ↔ names.getLast?.any isDocument = true ∧
      ∃ bytes mode, disk.entry? (folder ++ names) = some (.file bytes mode) := by
  constructor
  · intro listed
    obtain ⟨⟨place,entry⟩,member,named⟩ := List.mem_filterMap.mp listed
    obtain ⟨⟨bytes,mode,rfl⟩,rfl,document⟩ := listed_place named
    exact ⟨document,bytes,mode,sound.stands_of_mem member⟩
  · rintro ⟨document,bytes,mode,stands⟩
    have named : folder ++ names ≠ [] := by
      intro none
      rw [(List.append_eq_nil_iff.mp none).2] at document
      cases document
    refine List.mem_filterMap.mpr ⟨_,mem_of_stands named stands,?_⟩
    dsimp only
    rw [Location.below?_eq_some_iff.mpr rfl]
    exact if_pos document

theorem mem_documentsBelow (sound : disk.Sound) {names : List Text}
    (listed : names ∈ disk.documentsBelow folder) :
    names ≠ [] ∧ ∃ bytes mode, disk.entry? (folder ++ names) = some (.file bytes mode) := by
  obtain ⟨document,stands⟩ := (mem_documentsBelow_iff sound).mp listed
  refine ⟨?_,stands⟩
  rintro rfl
  cases document

theorem documentsBelow_nodup (sound : disk.Sound) : (disk.documentsBelow folder).Nodup := by
  have distinct := sound.distinct
  rw [List.Nodup,List.pairwise_map] at distinct
  refine List.pairwise_filterMap.mpr (distinct.imp ?_)
  rintro ⟨place,entry⟩ ⟨otherPlace,otherEntry⟩ apart names listed otherNames otherListed rfl
  exact apart ((listed_place listed).2.1.trans (listed_place otherListed).2.1.symm)

-- Where any entry is spelled at too great length, the first such name on the way
-- down to it is one that the listing comes upon.
theorem overlong?_eq_none_iff (sound : disk.Sound)
    (found : disk.find path = .ok (folder,.folder)) :
    disk.overlong? path folder = none ↔ disk.Spellable path folder := by
  rw [overlong?,List.find?_eq_none]
  constructor
  · intro short names
    induction names using List.reverseRecOn with
    | nil =>
      intro entry _
      rw [List.append_nil]
      exact (locate_eq_ok_iff.mp (find_eq_ok_iff.mp found).2.1).1
    | append_singleton names name ih =>
      intro entry stands
      rw [← List.append_assoc] at stands
      have above := ih .folder (sound.step stands).1
      have member := mem_of_stands (by simp) stands
      have below := Location.below?_eq_some_iff.mpr (List.append_assoc folder names [name])
      have spelled : ⟨path.anchor,path.names ++ (names ++ [name])⟩ ∈ disk.spelledBelow path folder :=
        List.mem_filterMap.mpr ⟨_,member,Option.map_eq_some_iff.mpr ⟨_,below,rfl⟩⟩
      have fits := short _ spelled
      simp only [parent_concat,above,decide_true,Bool.and_true,decide_eq_true_eq] at fits
      exact Nat.le_of_not_gt fits
  · intro spellable entry spelled
    obtain ⟨⟨place,kind⟩,member,named⟩ := List.mem_filterMap.mp spelled
    obtain ⟨names,below,rfl⟩ := Option.map_eq_some_iff.mp named
    obtain rfl := Location.below?_eq_some_iff.mp below
    have fits := spellable names kind (sound.stands_of_mem member)
    simp [Nat.not_lt.mpr fits]

theorem discover_eq (found : disk.find path = .ok (folder,.folder)) : disk.discover path =
    match disk.overlong? path folder with
    | some entry => .error (.access .nameTooLong entry)
    | none => .ok (((disk.documentsBelow folder).mergeSort precedes).map fun names =>
        ⟨path.anchor,path.names ++ names⟩) := by
  rw [discover,found]
  cases long : disk.overlong? path folder with
  | none => simp only [bind,Except.bind,settle,long,pure,Except.pure]
  | some entry => simp only [bind,Except.bind,settle,long,throw,throwThe,MonadExceptOf.throw]

theorem discover_folder (found : disk.find path = .ok (folder,.folder)) (sound : disk.Sound)
    (spellable : disk.Spellable path folder) : disk.discover path =
      .ok (((disk.documentsBelow folder).mergeSort precedes).map fun names =>
        ⟨path.anchor,path.names ++ names⟩) := by
  rw [discover_eq found,(overlong?_eq_none_iff sound found).mpr spellable]

theorem untagged_iff {tag : Text} (found : disk.find path = .ok (folder,.folder))
    (sound : disk.Sound) (spellable : disk.Spellable path folder) :
    disk.Untagged tag path ↔ ∀ names ∈ disk.documentsBelow folder,
      disk.entry? (disk.temporaryPlace tag ⟨path.anchor,path.names ++ names⟩) = none := by
  rw [Untagged,discover_folder found sound spellable]
  constructor
  · intro untagged names document
    exact untagged _ rfl _ (List.mem_map_of_mem (List.mem_mergeSort.mpr document))
  · intro unused paths same listed member
    obtain rfl := Except.ok.inj same
    obtain ⟨names,document,rfl⟩ := List.mem_map.mp member
    exact unused names (List.mem_mergeSort.mp document)

theorem discover_overlong (found : disk.find path = .ok (folder,.folder)) (sound : disk.Sound)
    (long : ¬ disk.Spellable path folder) : ∃ names kind,
      disk.entry? (folder ++ names) = some kind ∧
        pathLimit < Utf8.size (Path.text ⟨path.anchor,path.names ++ names⟩) ∧
          disk.discover path = .error (.access .nameTooLong ⟨path.anchor,path.names ++ names⟩) := by
  rw [discover_eq found]
  cases first : disk.overlong? path folder with
  | none => exact absurd ((overlong?_eq_none_iff sound found).mp first) long
  | some entry =>
    obtain ⟨⟨place,kind⟩,member,named⟩ := List.mem_filterMap.mp (List.mem_of_find?_eq_some first)
    obtain ⟨names,below,rfl⟩ := Option.map_eq_some_iff.mp named
    obtain rfl := Location.below?_eq_some_iff.mp below
    have exceeds := List.find?_some first
    simp only [Bool.and_eq_true,decide_eq_true_eq] at exceeds
    exact ⟨names,kind,sound.stands_of_mem member,exceeds.1,rfl⟩

theorem Sound.listed {tag : Text} (sound : disk.Sound)
    (found : disk.find path = .ok (folder,.folder)) (spellable : disk.Spellable path folder)
    (untagged : disk.Untagged tag path) :
    ∃ paths, disk.discover path = .ok paths ∧ disk.Listed tag paths := by
  have discovered := discover_folder found sound spellable
  refine ⟨_,discovered,?_⟩
  have files : ∀ listed ∈ ((disk.documentsBelow folder).mergeSort precedes).map
      (fun names => (⟨path.anchor,path.names ++ names⟩ : Path)), ∃ names name bytes mode,
        listed = ⟨path.anchor,path.names ++ (names ++ [name])⟩ ∧
          disk.Reached listed (folder ++ names) name ∧
            disk.entry? (folder ++ names ++ [name]) = some (.file bytes mode) := by
    intro listed member
    obtain ⟨whole,inner,rfl⟩ := List.mem_map.mp member
    obtain ⟨filled,bytes,mode,stands⟩ := mem_documentsBelow sound (List.mem_mergeSort.mp inner)
    obtain ⟨names,name,rfl⟩ := List.eq_nil_or_concat whole |>.resolve_left filled
    rw [List.concat_eq_append] at stands ⊢
    refine ⟨names,name,bytes,mode,rfl,sound.reached found spellable stands,?_⟩
    rwa [List.append_assoc]
  refine ⟨?_,?_,?_,?_⟩
  · refine List.Nodup.map ?_ ((List.mergeSort_perm _ _).nodup_iff.mpr (documentsBelow_nodup sound))
    intro one other same
    exact List.append_cancel_left (Path.mk.inj same).2
  · intro one first other second same
    obtain ⟨names,name,_,_,rfl,reached,_⟩ := files one first
    obtain ⟨otherNames,otherName,_,_,rfl,otherReached,_⟩ := files other second
    rw [reached.there,otherReached.there] at same
    have places := Except.ok.inj same
    rw [List.append_assoc,List.append_assoc] at places
    rw [List.append_cancel_left places]
  · intro one member
    obtain ⟨names,name,bytes,mode,_,reached,stands⟩ := files one member
    exact ⟨folder ++ names,name,bytes,mode,reached,stands⟩
  · exact untagged _ discovered

end Plainmark.Disk
