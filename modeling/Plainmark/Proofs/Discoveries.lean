import Plainmark.Proofs.Resolving

namespace Plainmark
open Text

def Alphabetic (one two : Text) : Prop := List.Lex (fun c d => c.toNat < d.toNat) one two

-- Paths part by part, by the first part that differs. This is not the order of their
-- texts, where a slash between names is a character among others.
def Path.Before (one two : Path) : Prop := List.Lex Alphabetic one.parts two.parts

def Documentary (name : Text) : Prop :=
  ∃ stem ending, name = stem ++ '.' :: ending ∧ stem ≠ [] ∧ '.' ∉ ending ∧
    (ending.map Char.toLower = "md".toList ∨ ending.map Char.toLower = "mdx".toList)

end Plainmark

namespace Plainmark.Path
open Text
variable {anchor : Anchor} {name ending : Text} {names : List Text}

theorem extension?_eq (name : Text) : extension? name =
    (closedBy? '.' name.reverse).bind fun found =>
      if found.1 = [] ∨ found.2 = [] then none else some found.1.reverse := by
  unfold extension? closedBy?
  dsimp only
  cases name.reverse.dropWhile (· != '.') with
  | nil => rfl
  | cons c rest =>
    cases rest with
    | nil => simp
    | cons d rest => simp

theorem extension?_eq_some_iff : extension? name = some ending ↔ ∃ stem,
    name = stem ++ '.' :: ending ∧ stem ≠ [] ∧ ending ≠ [] ∧ '.' ∉ ending := by
  rw [extension?_eq,Option.bind_eq_some_iff]
  constructor
  · rintro ⟨⟨run,rest⟩,closed,answer⟩
    obtain ⟨whole,absent⟩ := closedBy?_eq_some_iff.mp closed
    split at answer
    · cases answer
    · rename_i filled
      obtain rfl := Option.some.inj answer
      refine ⟨rest.reverse,?_,?_,?_,?_⟩
      · rw [← List.reverse_reverse name,whole]
        simp
      · simpa using fun none => filled (.inr none)
      · simpa using fun none => filled (.inl none)
      · simpa using absent
  · rintro ⟨stem,rfl,stemFilled,filled,absent⟩
    refine ⟨(ending.reverse,stem.reverse),closedBy?_eq_some_iff.mpr ⟨by simp,by simpa using absent⟩,?_⟩
    simp [stemFilled,filled]

theorem parts_append (anchor : Anchor) (names more : List Text) :
    parts ⟨anchor,names ++ more⟩ = parts ⟨anchor,names⟩ ++ more := by
  cases anchor <;> rfl

theorem before_below {one two : List Text} (first : one < two) :
    Before ⟨anchor,names ++ one⟩ ⟨anchor,names ++ two⟩ := by
  rw [Before,parts_append,parts_append]
  exact List.append_left_lt first

theorem Before.asymm {one two : Path} (first : Before one two) : ¬ Before two one :=
  fun second => List.lt_asymm (show one.parts < two.parts from first) second

end Plainmark.Path

namespace Plainmark.Disk
open Text
variable {disk : Disk} {path : Path} {folder : Location} {names : List Text}

theorem isDocument_iff {name : Text} : isDocument name = true ↔ Documentary name := by
  have filled : ∀ {ending : Text}, (ending.map Char.toLower = "md".toList ∨
      ending.map Char.toLower = "mdx".toList) → ending ≠ [] := by
    rintro ending (short | long) rfl
    · cases short
    · cases long
  unfold isDocument Documentary
  constructor
  · intro document
    split at document
    · rename_i ending found
      obtain ⟨stem,whole,stemFilled,_,absent⟩ := Path.extension?_eq_some_iff.mp found
      refine ⟨stem,ending,whole,stemFilled,absent,?_⟩
      simpa only [Bool.or_eq_true,beq_iff_eq] using document
    · cases document
  · rintro ⟨stem,ending,whole,stemFilled,absent,either⟩
    rw [Path.extension?_eq_some_iff.mpr ⟨stem,whole,stemFilled,filled either,absent⟩]
    simpa only [Bool.or_eq_true,beq_iff_eq] using either

instance (name : Text) : Decidable (Documentary name) := decidable_of_iff _ isDocument_iff

theorem mem_documentsBelow_named (sound : disk.Sound) : names ∈ disk.documentsBelow folder ↔
    ∃ inner name bytes mode, names = inner ++ [name] ∧
      disk.entry? (folder ++ (inner ++ [name])) = some (.file bytes mode) ∧ Documentary name := by
  rw [mem_documentsBelow_iff sound]
  constructor
  · rintro ⟨document,bytes,mode,stands⟩
    rcases List.eq_nil_or_concat names with rfl | ⟨inner,name,rfl⟩
    · cases document
    · rw [List.concat_eq_append] at *
      rw [List.getLast?_concat] at document
      exact ⟨inner,name,bytes,mode,rfl,stands,isDocument_iff.mp document⟩
  · rintro ⟨inner,name,bytes,mode,rfl,stands,document⟩
    rw [List.getLast?_concat]
    exact ⟨isDocument_iff.mpr document,bytes,mode,stands⟩

theorem precedes_iff {one two : List Text} : precedes one two = true ↔ ¬ two < one := by
  rw [precedes,Bool.not_eq_true',decide_eq_false_iff_not]

theorem mergeSort_precedes (all : List (List Text)) :
    (all.mergeSort precedes).Pairwise fun one two => ¬ two < one := by
  have trans : ∀ one two three : List Text, precedes one two = true →
      precedes two three = true → precedes one three = true := by
    intro one two three first second
    rw [precedes_iff] at *
    exact List.not_lt.mpr (List.le_trans (List.not_lt.mp first) (List.not_lt.mp second))
  have total : ∀ one two : List Text, (precedes one two || precedes two one) = true := by
    intro one two
    rw [Bool.or_eq_true,precedes_iff,precedes_iff]
    exact (List.le_total one two).imp List.not_lt.mpr List.not_lt.mpr
  exact (List.pairwise_mergeSort trans total all).imp precedes_iff.mp

theorem mergeSort_increasing {all sorted : List (List Text)} (perm : sorted.Perm all)
    (increasing : sorted.Pairwise (· < ·)) : all.mergeSort precedes = sorted := by
  refine ((List.mergeSort_perm all precedes).trans perm.symm).eq_of_pairwise ?_
    (mergeSort_precedes all) (increasing.imp List.lt_asymm)
  exact fun one two _ _ first second =>
    List.le_antisymm (List.not_lt.mp first) (List.not_lt.mp second)

theorem documents_increase (sound : disk.Sound) :
    ((disk.documentsBelow folder).mergeSort precedes).Pairwise (· < ·) := by
  have distinct : ((disk.documentsBelow folder).mergeSort precedes).Nodup :=
    (List.mergeSort_perm _ _).nodup_iff.mpr (documentsBelow_nodup sound)
  refine ((mergeSort_precedes _).and distinct).imp fun {one two} pair => ?_
  by_contra behind
  exact pair.2 (List.le_antisymm (List.not_lt.mp pair.1) (List.not_lt.mp behind))

structure Lists (disk : Disk) (path : Path) (folder : Location) (paths : List Path) : Prop where
  exact : ∀ listed, listed ∈ paths ↔ ∃ names name bytes mode,
    listed = path.join ⟨.relative,names ++ [name]⟩ ∧
      disk.entry? (folder ++ (names ++ [name])) = some (.file bytes mode) ∧ Documentary name
  inOrder : paths.Pairwise Path.Before

theorem increasing_nodup {paths : List Path} (inOrder : paths.Pairwise Path.Before) :
    paths.Nodup := by
  refine inOrder.imp fun {one two} before => ?_
  rintro rfl
  exact before.asymm before

theorem Sound.lists (sound : disk.Sound) (found : disk.find path = .ok (folder,.folder))
    (spellable : disk.Spellable path folder) :
    ∃ paths, disk.discover path = .ok paths ∧ disk.Lists path folder paths := by
  refine ⟨_,discover_folder found sound spellable,?_,?_⟩
  · intro listed
    rw [List.mem_map]
    constructor
    · rintro ⟨whole,member,rfl⟩
      obtain ⟨names,name,bytes,mode,rfl,stands⟩ :=
        (mem_documentsBelow_named sound).mp (List.mem_mergeSort.mp member)
      exact ⟨names,name,bytes,mode,rfl,stands⟩
    · rintro ⟨names,name,bytes,mode,rfl,stands⟩
      refine ⟨names ++ [name],List.mem_mergeSort.mpr ?_,rfl⟩
      exact (mem_documentsBelow_named sound).mpr ⟨names,name,bytes,mode,rfl,stands⟩
  · exact List.pairwise_map.mpr ((documents_increase sound).imp Path.before_below)

theorem Sound.find_below (sound : disk.Sound) (found : disk.find path = .ok (folder,.folder))
    (spellable : disk.Spellable path folder)
    (inner : disk.entry? (folder ++ names) = some .folder) :
    disk.find (path.join ⟨.relative,names⟩) = .ok (folder ++ names,.folder) ∧
      disk.Spellable (path.join ⟨.relative,names⟩) (folder ++ names) := by
  obtain ⟨plain,located,_⟩ := find_eq_ok_iff.mp found
  obtain ⟨_,walked⟩ := locate_eq_ok_iff.mp located
  constructor
  · refine find_eq_ok_iff.mpr ⟨sound.plain_below plain inner,?_,inner⟩
    exact locate_eq_ok_iff.mpr ⟨spellable _ _ inner,walk_append walked (sound.walk_below inner)⟩
  · intro more entry stands
    rw [List.append_assoc] at stands
    have fits := spellable (names ++ more) entry stands
    rwa [← List.append_assoc] at fits

theorem Lists.filter_below {paths inner : List Path} (lists : disk.Lists path folder paths)
    (below : disk.Lists (path.join ⟨.relative,names⟩) (folder ++ names) inner)
    (stands : disk.entry? (folder ++ names) = some .folder) :
    paths.filter (fun listed => (path.names ++ names).isPrefixOf listed.names) = inner := by
  have mem_iff : ∀ listed, listed ∈ paths.filter (fun listed =>
      (path.names ++ names).isPrefixOf listed.names) ↔ listed ∈ inner := by
    intro listed
    rw [List.mem_filter,lists.exact,below.exact,List.isPrefixOf_iff_prefix]
    constructor
    · rintro ⟨⟨all,name,bytes,mode,rfl,file,document⟩,starts⟩
      -- A document is no folder, so its own path is not the one that begins it.
      have onward : path.names ++ names <+: path.names ++ (all ++ [name]) := starts
      rcases List.prefix_concat_iff.mp ((List.prefix_append_right_inj path.names).mp onward) with
        rfl | ⟨more,rfl⟩
      · rw [stands] at file
        cases file
      · refine ⟨more,name,bytes,mode,?_,?_,document⟩
        · simp only [Path.join,List.append_assoc]
        · rwa [List.append_assoc,← List.append_assoc names]
    · rintro ⟨more,name,bytes,mode,rfl,file,document⟩
      have flat : names ++ (more ++ [name]) = (names ++ more) ++ [name] :=
        (List.append_assoc _ _ _).symm
      refine ⟨⟨names ++ more,name,bytes,mode,?_,?_,document⟩,?_⟩
      · simp only [Path.join,List.append_assoc]
      · rwa [← flat,← List.append_assoc]
      · exact List.prefix_append _ _
  -- Lists in strictly increasing order are equal if they have the same members.
  have inOrder := lists.inOrder.filter (fun listed =>
    (path.names ++ names).isPrefixOf listed.names)
  have perm := (List.perm_ext_iff_of_nodup (increasing_nodup inOrder)
    (increasing_nodup below.inOrder)).mpr mem_iff
  exact perm.eq_of_pairwise (fun one two _ _ before after => absurd after before.asymm)
    inOrder below.inOrder

-- A folder lists its documents under a path exactly where every entry below it can be
-- spelled. Each of them is listed once, in the order of the names, and no folder is, but
-- every folder below gives what it lists itself.
theorem discovery_exact (disk : Disk) (path : Path) (folder : Location) (sound : disk.Sound)
    (found : disk.find path = .ok (folder,.folder)) :
    ((∃ paths, disk.discover path = .ok paths) ↔ disk.Spellable path folder) ∧
      ∀ paths, disk.discover path = .ok paths → disk.Lists path folder paths ∧ paths.Nodup ∧
        ∀ names, disk.entry? (folder ++ names) = some .folder →
          path.join ⟨.relative,names⟩ ∉ paths ∧
            disk.discover (path.join ⟨.relative,names⟩) = .ok (paths.filter fun listed =>
              (path.names ++ names).isPrefixOf listed.names) := by
  refine ⟨⟨?_,?_⟩,?_⟩
  · rintro ⟨paths,discovered⟩
    exact spellable_of_discovered sound found discovered
  · intro spellable
    obtain ⟨paths,discovered,_⟩ := sound.lists found spellable
    exact ⟨paths,discovered⟩
  · intro paths discovered
    have spellable := spellable_of_discovered sound found discovered
    obtain ⟨others,same,lists⟩ := sound.lists found spellable
    obtain rfl := Except.ok.inj (same.symm.trans discovered)
    refine ⟨lists,increasing_nodup lists.inOrder,fun names stands => ⟨?_,?_⟩⟩
    · intro listed
      obtain ⟨inner,name,bytes,mode,joined,file,_⟩ := (lists.exact _).mp listed
      have names_eq : names = inner ++ [name] := List.append_cancel_left (Path.mk.inj joined).2
      rw [names_eq,file] at stands
      cases stands
    · obtain ⟨below,belowSpellable⟩ := sound.find_below found spellable stands
      obtain ⟨inner,discoveredBelow,belowLists⟩ := sound.lists below belowSpellable
      rw [discoveredBelow,lists.filter_below belowLists stands]

def annexName : Text := "annex".toList

def annex : Disk :=
  let page : Entry := .file (Utf8.encode ['x']) 0o644
  let place := fun (names : List String) => annexName :: names.map String.toList
  ⟨[],[(place [],.folder),(place ["a-b.md"],page),(place ["a"],.folder),(place ["a","x.md"],page),
    (place ["n.md"],.folder),(place ["n.md","..md"],page),(place ["Z.MDX"],page),
    (place [".md"],page),(place ["x.md."],page),(place ["md"],page)]⟩

theorem annex_listed : annex.Sound ∧
    annex.find ⟨.relative,[annexName]⟩ = .ok ([annexName],.folder) ∧
      annex.discover ⟨.relative,[annexName]⟩ = .ok ([["Z.MDX"],["a","x.md"],["a-b.md"],
        ["n.md","..md"]].map fun names => ⟨.relative,annexName :: names.map String.toList⟩) ∧
        ∃ paths, annex.discover ⟨.relative,[annexName]⟩ = .ok paths ∧
          annex.Lists ⟨.relative,[annexName]⟩ [annexName] paths ∧ paths.Nodup := by
  have sound : annex.Sound := by decide +kernel
  have found : annex.find ⟨.relative,[annexName]⟩ = .ok ([annexName],.folder) := by
    decide +kernel
  have short : annex.overlong? ⟨.relative,[annexName]⟩ [annexName] = none := by decide +kernel
  have sorted : (annex.documentsBelow [annexName]).mergeSort precedes =
      [["Z.MDX"],["a","x.md"],["a-b.md"],["n.md","..md"]].map (·.map String.toList) :=
    mergeSort_increasing (by decide +kernel) (by decide +kernel)
  obtain ⟨_,listing⟩ := discovery_exact annex ⟨.relative,[annexName]⟩ [annexName] sound found
  have discovered := discover_eq found
  rw [short,sorted] at discovered
  obtain ⟨lists,distinct,_⟩ := listing _ discovered
  exact ⟨sound,found,discovered,_,discovered,lists,distinct⟩

theorem detour_unlisted : Job.cabinet.Sound ∧
    Job.cabinet.find Job.detour = .ok ([Job.aisle],.folder) ∧
      Job.cabinet.entry? ([Job.aisle] ++ [Job.note]) = some (.file (Utf8.encode ['x']) 0o644) ∧
        Documentary Job.note ∧ Job.cabinet.discover Job.detour =
          .error (.access .nameTooLong (Job.detour.join ⟨.relative,[Job.note]⟩)) := by
  have found : Job.cabinet.find Job.detour = .ok ([Job.aisle],.folder) := by decide +kernel
  have long : Job.cabinet.overlong? Job.detour [Job.aisle] =
      some ⟨.relative,Job.detour.names ++ [Job.note]⟩ := by decide +kernel
  refine ⟨by decide +kernel,found,by decide +kernel,by decide +kernel,?_⟩
  rw [discover_eq found,long]
  rfl

end Plainmark.Disk
