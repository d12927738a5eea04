import Plainmark.Batch
import Plainmark.Proofs.Encoding
import Plainmark.Proofs.Listing

namespace Plainmark.Job
open Text

def rewritten (job : Job) (disk : Disk) (path : Path) (before : Text) : Text :=
  (Conversion.convert (job.context disk path) before).text

def expected? (job : Job) (disk : Disk) (path : Path) : Option FileResult :=
  match disk.readText path with
  | .error _ => none
  | .ok before =>
    let after := job.rewritten disk path before
    if before = after then some ⟨path,before,after,false⟩
    else if disk.Crowded job.tag path then none
    else some ⟨path,before,after,true⟩

-- A job whose documents at hand are the files of the disk, whatever they hold.
def Steady (job : Job) : Prop :=
  ∀ one other : Disk, one.Keeps other → other.Keeps one → job.shelf one = job.shelf other

theorem onDisk_steady (settings : Settings) (writes : Bool) (tag : Text) :
    (onDisk settings writes tag).Steady := by
  intro one other forth back
  funext category name
  exact forth.isFile_eq back _

-- How a disk stands when some files had their turn: those that did not fail
-- hold their new text, and all else is as it was.
structure Reflects (job : Job) (disk : Disk) (done : List Path) (now : Disk) : Prop where
  here : now.here = disk.here
  written : ∀ path ∈ done, ∀ result, job.expected? disk path = some result →
    ∀ place bytes mode, disk.find path = .ok (place,.file bytes mode) →
      now.entry? place = some (.file (Utf8.encode result.after) mode)
  kept : ∀ place, (∀ path ∈ done, disk.locate path = .ok place → job.expected? disk path = none) →
    now.entry? place = disk.entry? place

variable {job : Job} {disk now : Disk} {done paths : List Path} {path : Path}

theorem Reflects.start (job : Job) (disk : Disk) : job.Reflects disk [] disk :=
  ⟨rfl,fun _ member => (by cases member),fun _ _ => rfl⟩

theorem readText_file {place : Location} {bytes : Bytes} {mode : Nat}
    (found : disk.find path = .ok (place,.file bytes mode)) :
    disk.readText path = match Utf8.decode bytes with
      | .ok text => .ok text
      | .error fault => .error (.undecodable fault) := by
  rw [Disk.readText,Disk.read,found]
  rfl

theorem expected?_eq (job : Job) {place : Location} {bytes : Bytes} {mode : Nat}
    (found : disk.find path = .ok (place,.file bytes mode)) : job.expected? disk path =
      match Utf8.decode bytes with
      | .error _ => none
      | .ok before =>
        if before = job.rewritten disk path before then
          some ⟨path,before,job.rewritten disk path before,false⟩
        else if disk.Crowded job.tag path then none
        else some ⟨path,before,job.rewritten disk path before,true⟩ := by
  rw [expected?,readText_file found]
  cases Utf8.decode bytes with
  | error fault => rfl
  | ok before => rfl

theorem expected?_find {result : FileResult} (expects : job.expected? disk path = some result) :
    ∃ place bytes mode, disk.find path = .ok (place,.file bytes mode) := by
  cases found : disk.find path with
  | error trouble =>
    rw [expected?,Disk.readText,Disk.read,found] at expects
    cases expects
  | ok there =>
    obtain ⟨place,entry⟩ := there
    cases entry with
    | file bytes mode => exact ⟨place,bytes,mode,rfl⟩
    | folder =>
      rw [expected?,Disk.readText,Disk.read,found] at expects
      cases expects

theorem touched_or (job : Job) (disk : Disk) (done : List Path) (place : Location) :
    (∃ path ∈ done, ∃ result bytes mode, job.expected? disk path = some result ∧
      disk.find path = .ok (place,.file bytes mode)) ∨
    ∀ path ∈ done, disk.locate path = .ok place → job.expected? disk path = none := by
  by_cases none : ∀ path ∈ done, disk.locate path = .ok place → job.expected? disk path = none
  · exact .inr none
  · push Not at none
    obtain ⟨path,member,located,expects⟩ := none
    obtain ⟨result,expected⟩ := Option.ne_none_iff_exists'.mp expects
    obtain ⟨there,bytes,mode,found⟩ := expected?_find expected
    obtain ⟨_,same,_⟩ := Disk.find_eq_ok_iff.mp found
    rw [located] at same
    obtain rfl := Except.ok.inj same
    exact .inl ⟨path,member,result,bytes,mode,expected,found⟩

theorem Reflects.either (reflects : job.Reflects disk done now) (place : Location) :
    now.entry? place = disk.entry? place ∨ ∃ old new mode,
      disk.entry? place = some (.file old mode) ∧ now.entry? place = some (.file new mode) := by
  rcases touched_or job disk done place with ⟨path,member,result,bytes,mode,expects,found⟩ | none
  · obtain ⟨_,_,stands⟩ := Disk.find_eq_ok_iff.mp found
    exact .inr ⟨bytes,_,mode,stands,reflects.written path member result expects _ _ _ found⟩
  · exact .inl (reflects.kept place none)

theorem Reflects.keeps (reflects : job.Reflects disk done now) : disk.Keeps now := by
  refine ⟨reflects.here.symm,fun place entry stands => ?_⟩
  rcases reflects.either place with same | ⟨old,new,mode,before,after⟩
  · exact ⟨entry,same.trans stands,rfl⟩
  · rw [before] at stands
    obtain rfl := Option.some.inj stands
    exact ⟨_,after,rfl⟩

theorem Reflects.kept_by (reflects : job.Reflects disk done now) : now.Keeps disk := by
  refine ⟨reflects.here,fun place entry stands => ?_⟩
  rcases reflects.either place with same | ⟨old,new,mode,before,after⟩
  · exact ⟨entry,same.symm.trans stands,rfl⟩
  · rw [after] at stands
    obtain rfl := Option.some.inj stands
    exact ⟨_,before,rfl⟩

theorem Reflects.unused (reflects : job.Reflects disk done now) {place : Location}
    (unused : disk.entry? place = none) : now.entry? place = none := by
  rcases reflects.either place with same | ⟨old,new,mode,before,_⟩
  · exact same.trans unused
  · rw [unused] at before
    cases before

theorem Reflects.crowded (reflects : job.Reflects disk done now) {tag : Text} :
    now.Crowded tag path ↔ disk.Crowded tag path := by
  unfold Disk.Crowded Disk.temporaryPath Disk.temporaryPlace
  rw [reflects.here]

-- What a file becomes does not depend on what was written before its turn.
theorem Reflects.rewritten_eq (reflects : job.Reflects disk done now) (steady : job.Steady)
    (path : Path) (before : Text) : job.rewritten now path before = job.rewritten disk path before := by
  have shelf : job.shelf now = job.shelf disk := steady now disk reflects.kept_by reflects.keeps
  rw [rewritten,rewritten,context,context,reflects.here,shelf]

theorem Reflects.failed (reflects : job.Reflects disk done now)
    (fails : job.expected? disk path = none) : job.Reflects disk (path :: done) now := by
  refine ⟨reflects.here,?_,?_⟩
  · intro other member result expects
    rcases List.mem_cons.mp member with rfl | earlier
    · rw [fails] at expects
      cases expects
    · exact reflects.written other earlier result expects
  · intro place untouched
    exact reflects.kept place fun other earlier => untouched other (List.mem_cons_of_mem _ earlier)

theorem Reflects.finished {place : Location} {bytes : Bytes} {mode : Nat} {result : FileResult}
    {next : Disk} (reflects : job.Reflects disk done now)
    (expects : job.expected? disk path = some result)
    (found : disk.find path = .ok (place,.file bytes mode))
    (fresh : ∀ other ∈ done, disk.locate other ≠ .ok place) (here : next.here = now.here)
    (entries : ∀ other, next.entry? other =
      if other = place then some (.file (Utf8.encode result.after) mode) else now.entry? other) :
    job.Reflects disk (path :: done) next := by
  obtain ⟨_,located,_⟩ := Disk.find_eq_ok_iff.mp found
  refine ⟨here.trans reflects.here,?_,?_⟩
  · intro other member otherResult otherExpects otherPlace otherBytes otherMode otherFound
    rw [entries]
    rcases List.mem_cons.mp member with rfl | earlier
    · rw [expects] at otherExpects
      rw [found] at otherFound
      cases otherExpects
      cases otherFound
      rw [if_pos rfl]
    · have apart : otherPlace ≠ place := by
        rintro rfl
        exact fresh other earlier (Disk.find_eq_ok_iff.mp otherFound).2.1
      rw [if_neg apart]
      exact reflects.written other earlier otherResult otherExpects _ _ _ otherFound
  · intro other untouched
    have apart : other ≠ place := by
      rintro rfl
      have fails := untouched path List.mem_cons_self located
      rw [expects] at fails
      cases fails
    rw [entries,if_neg apart]
    exact reflects.kept other fun earlier member =>
      untouched earlier (List.mem_cons_of_mem _ member)

theorem Reflects.step {folder : Location} {name : Text} {bytes : Bytes} {mode : Nat}
    (reflects : job.Reflects disk done now) (steady : job.Steady) (writes : job.writes = true)
    (reached : disk.Reached path folder name)
    (stands : disk.entry? (folder ++ [name]) = some (.file bytes mode))
    (unused : disk.entry? (disk.temporaryPlace job.tag path) = none)
    (fresh : ∀ other ∈ done, disk.locate other ≠ .ok (folder ++ [name])) :
    job.Reflects disk (path :: done) (job.convertFile now path).disk ∧
      match job.expected? disk path with
      | some result => (job.convertFile now path).result = .ok result
      | none => ∃ trouble, (job.convertFile now path).result = .error trouble ∧
          trouble.ofOneFile = true := by
  have reachedNow := reflects.keeps.reached reached
  have found := Disk.find_reached reached stands
  have standsNow : now.entry? (folder ++ [name]) = some (.file bytes mode) :=
    (reflects.kept _ fun other member located => absurd located (fresh other member)).trans stands
  have expected := job.expected?_eq found
  have readNow := readText_file (Disk.find_reached reachedNow standsNow)
  cases decoded : Utf8.decode bytes with
  | error fault =>
    rw [decoded] at expected readNow
    dsimp only at expected
    rw [expected,convertFile,readNow]
    exact ⟨reflects.failed expected,_,rfl,rfl⟩
  | ok before =>
    rw [decoded] at expected readNow
    dsimp only at expected
    have spelled := Utf8.decode_eq_ok_iff.mp decoded
    have after := reflects.rewritten_eq steady path before
    have converted : (Conversion.convert (job.context now path) before).text =
      job.rewritten disk path before := after
    rw [convertFile,readNow]
    simp only [writes,Bool.true_and,FileResult.changed,converted]
    by_cases same : before = job.rewritten disk path before
    · rw [if_pos same] at expected
      rw [expected,if_neg (by simpa using same)]
      refine ⟨reflects.finished expected found fresh rfl fun other => ?_,rfl⟩
      split
      · rename_i here
        rw [here,standsNow,spelled,← same]
      · rfl
    · rw [if_neg same] at expected
      rw [if_pos (by simpa using same)]
      by_cases crowded : disk.Crowded job.tag path
      · rw [if_pos crowded] at expected
        rw [expected,Disk.replace_crowded reachedNow (reflects.crowded.mpr crowded)]
        exact ⟨reflects.failed expected,_,rfl,rfl⟩
      · rw [if_neg crowded] at expected
        rw [reached.headed.temporaryPlace_eq] at unused
        obtain ⟨written,replaced,here,entries⟩ := Disk.replace_file reachedNow standsNow
          (reflects.unused unused) (mt reflects.crowded.mp crowded) (job.rewritten disk path before)
        rw [expected,replaced]
        exact ⟨reflects.finished expected found fresh here entries,rfl⟩

theorem runFiles_done (paths : List Path) {progress : Progress} {result : FileResult}
    (done : (job.convertFile progress.disk path).result = .ok result) :
    ∃ records, job.runFiles progress (path :: paths) =
      job.runFiles ⟨(job.convertFile progress.disk path).disk,records,
        progress.results ++ [result],progress.failures⟩ paths := by
  refine ⟨progress.records ++ (job.convertFile progress.disk path).records,?_⟩
  rw [runFiles]
  simp only [done]

theorem runFiles_aside (paths : List Path) {progress : Progress} {trouble : Trouble}
    (failed : (job.convertFile progress.disk path).result = .error trouble)
    (aside : trouble.ofOneFile = true) :
    ∃ records, job.runFiles progress (path :: paths) =
      job.runFiles ⟨(job.convertFile progress.disk path).disk,records,
        progress.results,progress.failures ++ [(path,trouble)]⟩ paths := by
  refine ⟨progress.records ++ (job.convertFile progress.disk path).records ++
    [skipped path trouble],?_⟩
  rw [runFiles]
  simp only [failed,aside,if_true]

theorem fresh_place {folder : Location} {name : Text}
    (listed : disk.Listed job.tag (path :: paths ++ done)) (reached : disk.Reached path folder name) :
    ∀ other ∈ done, disk.locate other ≠ .ok (folder ++ [name]) := by
  intro other earlier located
  have same := listed.apart path (by simp) other (by simp [earlier])
    (reached.there.trans located.symm)
  subst same
  exact (List.nodup_cons.mp listed.distinct).1 (List.mem_append_right _ earlier)

theorem Reflects.run (progress : Progress) (steady : job.Steady) (writes : job.writes = true)
    (reflects : job.Reflects disk done progress.disk)
    (listed : disk.Listed job.tag (paths ++ done)) :
    (job.runFiles progress paths).aborted = none ∧
      (job.runFiles progress paths).progress.results =
        progress.results ++ paths.filterMap (job.expected? disk) ∧
      (job.runFiles progress paths).progress.failures.map Prod.fst =
        progress.failures.map Prod.fst ++ paths.filter (fun path => (job.expected? disk path).isNone) ∧
      job.Reflects disk (paths.reverse ++ done) (job.runFiles progress paths).progress.disk := by
  induction paths generalizing progress done with
  | nil =>
    simp only [List.filterMap_nil,List.filter_nil,List.append_nil]
    exact ⟨rfl,rfl,rfl,reflects⟩
  | cons path paths ih =>
    have member : path ∈ path :: paths ++ done := by simp
    obtain ⟨folder,name,bytes,mode,reached,stands⟩ := listed.files path member
    obtain ⟨next,answers⟩ :=
      reflects.step steady writes reached stands (listed.unused path member)
        (fresh_place listed reached)
    have rest : disk.Listed job.tag (paths ++ path :: done) := listed.perm List.perm_middle
    have order : (path :: paths).reverse ++ done = paths.reverse ++ path :: done := by simp
    rw [order]
    cases expects : job.expected? disk path with
    | some result =>
      rw [expects] at answers
      obtain ⟨records,ran⟩ := runFiles_done paths answers
      rw [ran]
      obtain ⟨aborted,results,failures,final⟩ := ih ⟨_,records,_,_⟩ next rest
      refine ⟨aborted,?_,?_,final⟩
      · rw [results,List.filterMap_cons_some expects,List.append_assoc,List.singleton_append]
      · rw [failures,List.filter_cons_of_neg (by simp [expects])]
    | none =>
      rw [expects] at answers
      obtain ⟨trouble,failed,aside⟩ := answers
      obtain ⟨records,ran⟩ := runFiles_aside paths failed aside
      rw [ran]
      obtain ⟨aborted,results,failures,final⟩ := ih ⟨_,records,_,_⟩ next rest
      refine ⟨aborted,?_,?_,final⟩
      · rw [results,List.filterMap_cons_none expects]
      · rw [failures,List.filter_cons_of_pos (by simp [expects]),List.map_append,List.append_assoc]
        rfl

end Plainmark.Job
