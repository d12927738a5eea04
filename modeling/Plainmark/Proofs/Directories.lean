import Plainmark.Proofs.Runs

namespace Plainmark.Job
open Text

def Fails (job : Job) (disk : Disk) (path : Path) : Prop :=
  ∃ place bytes mode, disk.find path = .ok (place,.file bytes mode) ∧
    ((∀ text, bytes ≠ Utf8.encode text) ∨ ∃ before, bytes = Utf8.encode before ∧
      job.rewritten disk path before ≠ before ∧ disk.Crowded job.tag path)

-- A result that tells what its file held and holds, with the mode kept. What the
-- file becomes is told from the disk at the start.
def Faithful (job : Job) (disk final : Disk) (result : FileResult) : Prop :=
  ∃ place bytes mode, disk.find result.path = .ok (place,.file bytes mode) ∧
    bytes = Utf8.encode result.before ∧
      result.after = job.rewritten disk result.path result.before ∧
        result.written = result.changed ∧
          final.entry? place = some (.file (Utf8.encode result.after) mode)

structure Settled (job : Job) (disk : Disk) (paths : List Path) (outcome : BatchOutcome) : Prop where
  whole : outcome.aborted = none
  partition : (outcome.progress.results.map FileResult.path ++
    outcome.progress.failures.map Prod.fst).Perm paths
  resultsInOrder : (outcome.progress.results.map FileResult.path).Sublist paths
  failuresInOrder : (outcome.progress.failures.map Prod.fst).Sublist paths
  failing : ∀ path ∈ paths, path ∈ outcome.progress.failures.map Prod.fst ↔ job.Fails disk path
  faithful : ∀ result ∈ outcome.progress.results, job.Faithful disk outcome.progress.disk result
  untouched : ∀ path ∈ outcome.progress.failures.map Prod.fst, ∀ place,
    disk.locate path = .ok place → outcome.progress.disk.entry? place = disk.entry? place
  kept : ∀ place, (∀ result ∈ outcome.progress.results, result.changed = true →
    disk.locate result.path ≠ .ok place) → outcome.progress.disk.entry? place = disk.entry? place
  standing : ∀ place, (outcome.progress.disk.entry? place).isSome = (disk.entry? place).isSome

variable {job : Job} {disk now : Disk} {done paths : List Path} {path : Path}

theorem expected?_eq_none_iff {place : Location} {bytes : Bytes} {mode : Nat}
    (found : disk.find path = .ok (place,.file bytes mode)) :
    job.expected? disk path = none ↔ job.Fails disk path := by
  rw [job.expected?_eq found]
  cases decoded : Utf8.decode bytes with
  | error fault =>
    refine iff_of_true rfl ⟨place,bytes,mode,found,.inl fun text spelled => ?_⟩
    rw [Utf8.decode_eq_ok_iff.mpr spelled] at decoded
    cases decoded
  | ok before =>
    have spelled := Utf8.decode_eq_ok_iff.mp decoded
    constructor
    · intro none
      refine ⟨place,bytes,mode,found,.inr ⟨before,spelled,?_,?_⟩⟩
      · intro same
        simp [same] at none
      · by_contra roomy
        simp only [roomy,if_false] at none
        split at none <;> cases none
    · rintro ⟨_,_,_,again,fault | ⟨text,same,changes,crowded⟩⟩
      · rw [found] at again
        cases again
        exact absurd spelled (fault before)
      · rw [found] at again
        cases again
        rw [Utf8.decode_eq_ok_iff.mpr same] at decoded
        obtain rfl := Except.ok.inj decoded
        dsimp only
        rw [if_neg (Ne.symm changes),if_pos crowded]

theorem expected?_some {result : FileResult} (expects : job.expected? disk path = some result) :
    result.path = path ∧ result.after = job.rewritten disk path result.before ∧
      result.written = result.changed ∧ ∃ place bytes mode,
        disk.find path = .ok (place,.file bytes mode) ∧ bytes = Utf8.encode result.before := by
  obtain ⟨place,bytes,mode,found⟩ := expected?_find expects
  rw [job.expected?_eq found] at expects
  cases decoded : Utf8.decode bytes with
  | error fault =>
    rw [decoded] at expects
    cases expects
  | ok before =>
    have spelled := Utf8.decode_eq_ok_iff.mp decoded
    rw [decoded] at expects
    dsimp only at expects
    split at expects
    · rename_i same
      obtain rfl := Option.some.inj expects
      exact ⟨rfl,rfl,by simpa [FileResult.changed] using same,place,bytes,mode,found,spelled⟩
    · rename_i differs
      split at expects
      · cases expects
      · obtain rfl := Option.some.inj expects
        exact ⟨rfl,rfl,by simpa [FileResult.changed] using differs,place,bytes,mode,found,spelled⟩

theorem expected?_paths (job : Job) (disk : Disk) (paths : List Path) :
    (paths.filterMap (job.expected? disk)).map FileResult.path =
      paths.filter fun path => (job.expected? disk path).isSome := by
  induction paths with
  | nil => rfl
  | cons path paths ih =>
    cases expects : job.expected? disk path with
    | none => rw [List.filterMap_cons_none expects,ih,List.filter_cons_of_neg (by simp [expects])]
    | some result =>
      rw [List.filterMap_cons_some expects,List.map_cons,ih,(expected?_some expects).1,
        List.filter_cons_of_pos (by simp [expects])]

theorem Reflects.faithful {result : FileResult} (reflects : job.Reflects disk done now)
    (member : path ∈ done) (expects : job.expected? disk path = some result) :
    job.Faithful disk now result := by
  obtain ⟨rfl,after,told,place,bytes,mode,found,spelled⟩ := expected?_some expects
  exact ⟨place,bytes,mode,found,spelled,after,told,
    reflects.written _ member result expects place bytes mode found⟩

theorem Reflects.final_eq {other : Disk} {order : List Path} (one : job.Reflects disk paths now)
    (two : job.Reflects disk order other) (same : order.Perm paths) (place : Location) :
    now.entry? place = other.entry? place := by
  rcases touched_or job disk paths place with ⟨path,member,result,bytes,mode,expects,found⟩ | none
  · rw [one.written path member result expects place bytes mode found,
      two.written path (same.mem_iff.mpr member) result expects place bytes mode found]
  · rw [one.kept place none,two.kept place fun path member => none path (same.mem_iff.mp member)]

theorem Reflects.isSome (reflects : job.Reflects disk done now) (place : Location) :
    (now.entry? place).isSome = (disk.entry? place).isSome :=
  Bool.eq_iff_iff.mpr ⟨reflects.kept_by.isSome,reflects.keeps.isSome⟩

theorem Reflects.unchanged {place : Location} {bytes : Bytes} {mode : Nat} {result : FileResult}
    (reflects : job.Reflects disk done now) (member : path ∈ done)
    (expects : job.expected? disk path = some result)
    (found : disk.find path = .ok (place,.file bytes mode)) (same : result.changed = false) :
    now.entry? place = disk.entry? place := by
  obtain ⟨_,_,_,there,old,kept,again,spelled⟩ := expected?_some expects
  rw [found] at again
  cases again
  have equal : result.before = result.after := by simpa [FileResult.changed] using same
  rw [reflects.written path member result expects place bytes mode found,
    (Disk.find_eq_ok_iff.mp found).2.2,spelled,equal]

theorem files_settled (steady : job.Steady) (writes : job.writes = true)
    (listed : disk.Listed job.tag paths) :
    job.Settled disk paths (job.runFiles ⟨disk,[],[],[]⟩ paths) ∧
      job.Reflects disk paths.reverse (job.runFiles ⟨disk,[],[],[]⟩ paths).progress.disk := by
  obtain ⟨whole,results,failures,reflects⟩ := (Reflects.start job disk).run ⟨disk,[],[],[]⟩ steady
    writes (by rwa [List.append_nil])
  rw [List.append_nil] at reflects
  rw [List.nil_append] at results
  rw [List.map_nil,List.nil_append] at failures
  have answered := job.expected?_paths disk paths
  rw [← results] at answered
  have done : ∀ {path}, path ∈ paths → path ∈ paths.reverse := List.mem_reverse.mpr
  have result_of : ∀ {result}, result ∈ (job.runFiles ⟨disk,[],[],[]⟩ paths).progress.results →
      ∃ path ∈ paths, job.expected? disk path = some result := by
    intro result member
    rw [results] at member
    exact List.mem_filterMap.mp member
  refine ⟨⟨whole,?_,?_,?_,?_,?_,?_,?_,reflects.isSome⟩,reflects⟩
  · rw [answered,failures]
    simpa using List.filter_append_perm (fun path => (job.expected? disk path).isSome) paths
  · rw [answered]
    exact List.filter_sublist
  · rw [failures]
    exact List.filter_sublist
  · intro path member
    obtain ⟨folder,name,bytes,mode,reached,stands⟩ := listed.files path member
    rw [failures,← expected?_eq_none_iff (Disk.find_reached reached stands)]
    simp [member]
  · intro result member
    obtain ⟨path,there,expects⟩ := result_of member
    exact reflects.faithful (done there) expects
  · intro path member place located
    rw [failures] at member
    obtain ⟨there,fails⟩ := List.mem_filter.mp member
    refine reflects.kept place fun other earlier elsewhere => ?_
    have same := listed.apart other (List.mem_reverse.mp earlier) path there
      (elsewhere.trans located.symm)
    rw [same]
    exact Option.isNone_iff_eq_none.mp fails
  · intro place elsewhere
    rcases touched_or job disk paths place with ⟨path,member,result,bytes,mode,expects,found⟩ | none
    · refine reflects.unchanged (done member) expects found ?_
      by_contra changed
      have among : result ∈ (job.runFiles ⟨disk,[],[],[]⟩ paths).progress.results := by
        rw [results]
        exact List.mem_filterMap.mpr ⟨path,member,expects⟩
      refine elsewhere result among (by simpa using changed) ?_
      rw [(expected?_some expects).1]
      exact (Disk.find_eq_ok_iff.mp found).2.1
    · exact reflects.kept place fun path member => none path (List.mem_reverse.mp member)

-- A run over a folder is done with every document below it, and the disk would
-- be the same after any other order of them.
theorem directory_run_settles (settings : Settings) (tag : Text) (disk : Disk) (path : Path)
    (folder : Location) (sound : disk.Sound) (found : disk.find path = .ok (folder,.folder))
    (spellable : disk.Spellable path folder) (untagged : disk.Untagged tag path) :
    ∃ paths, disk.discover path = .ok paths ∧ paths.Nodup ∧
      (onDisk settings true tag).Settled disk paths ((onDisk settings true tag).run disk path) ∧
        ∀ order : List Path, order.Perm paths →
          let other := (onDisk settings true tag).runFiles ⟨disk,[],[],[]⟩ order
          (onDisk settings true tag).Settled disk order other ∧ ∀ place,
            other.progress.disk.entry? place =
              ((onDisk settings true tag).run disk path).progress.disk.entry? place := by
  obtain ⟨paths,discovered,listed⟩ := sound.listed found spellable untagged
  have steady := onDisk_steady settings true tag
  obtain ⟨settled,reflects⟩ := files_settled steady rfl listed
  have ran : (onDisk settings true tag).run disk path =
      (onDisk settings true tag).runFiles ⟨disk,[],[],[]⟩ paths := by
    rw [run,discovered]
  refine ⟨paths,discovered,listed.distinct,ran ▸ settled,fun order perm => ?_⟩
  obtain ⟨otherSettled,otherReflects⟩ := files_settled steady rfl (listed.perm perm)
  have same : order.reverse.Perm paths.reverse :=
    (List.reverse_perm order).trans (perm.trans (List.reverse_perm paths).symm)
  refine ⟨otherSettled,fun place => ?_⟩
  rw [ran]
  exact (reflects.final_eq otherReflects same place).symm

def pagesFolder : Text := "pages".toList

def pagesTag : Text := "k3y_0abc".toList

def pages : Disk :=
  let page := Utf8.encode "\x7b\x7bGlossary(\"DOM\")\x7d\x7d".toList
  ⟨[],[([pagesFolder],.folder),([pagesFolder,"a.md".toList],.file page 0o640),
    ([pagesFolder,"b.md".toList],.file (Utf8.encode ['x']) 0o644),
    ([pagesFolder,"c.md".toList],.file [0xFF] 0o644),
    ([pagesFolder,List.replicate 240 'd' ++ ".md".toList],.file page 0o644)]⟩

theorem pages_settle : pages.Sound ∧
    pages.find ⟨.relative,[pagesFolder]⟩ = .ok ([pagesFolder],.folder) ∧
      pages.Spellable ⟨.relative,[pagesFolder]⟩ [pagesFolder] ∧
        pages.Untagged pagesTag ⟨.relative,[pagesFolder]⟩ ∧
          ∃ paths, pages.discover ⟨.relative,[pagesFolder]⟩ = .ok paths ∧
            (onDisk {} true pagesTag).Settled pages paths
              ((onDisk {} true pagesTag).run pages ⟨.relative,[pagesFolder]⟩) := by
  have sound : pages.Sound := by decide +kernel
  have found : pages.find ⟨.relative,[pagesFolder]⟩ = .ok ([pagesFolder],.folder) := by
    decide +kernel
  have spellable : pages.Spellable ⟨.relative,[pagesFolder]⟩ [pagesFolder] :=
    (Disk.overlong?_eq_none_iff sound found).mp (by decide +kernel)
  have untagged : pages.Untagged pagesTag ⟨.relative,[pagesFolder]⟩ :=
    (Disk.untagged_iff found sound spellable).mpr (by decide +kernel)
  obtain ⟨paths,discovered,_,settled,_⟩ :=
    directory_run_settles {} pagesTag pages ⟨.relative,[pagesFolder]⟩ [pagesFolder]
      sound found spellable untagged
  exact ⟨sound,found,spellable,untagged,paths,discovered,settled⟩

def aisle : Text := List.replicate 200 'a'

def note : Text := List.replicate 200 'b' ++ ".md".toList

def cabinet : Disk :=
  ⟨[],[([aisle],.folder),([aisle,note],.file (Utf8.encode ['x']) 0o644)]⟩

def detour : Path := ⟨.relative,(List.replicate 19 [aisle,Path.dots]).flatten ++ [aisle]⟩

def label : Text := List.replicate 80 'c' ++ ".md".toList

def cellar : Disk :=
  ⟨List.replicate 20 aisle,
    (List.range 20).map (fun depth => (List.replicate (depth + 1) aisle,.folder)) ++
      [(List.replicate 20 aisle ++ [label],.file (Utf8.encode "![](b)".toList) 0o644)]⟩

-- Not every folder's run is done, and a file can fail although its name leaves
-- room: whole paths are bounded too.
theorem path_lengths_bound_runs :
    (cabinet.Sound ∧ cabinet.find detour = .ok ([aisle],.folder) ∧
      ((onDisk {} true pagesTag).run cabinet detour).aborted =
        some (.access .nameTooLong ⟨.relative,detour.names ++ [note]⟩)) ∧
    (cellar.Sound ∧ cellar.find ⟨.relative,[]⟩ = .ok (List.replicate 20 aisle,.folder) ∧
      Utf8.size (Disk.temporaryName pagesTag label) ≤ Disk.nameLimit ∧
        ((onDisk {} true pagesTag).run cellar ⟨.relative,[]⟩).progress.failures.map Prod.fst =
          [⟨.relative,[label]⟩]) := by
  decide +kernel

end Plainmark.Job
