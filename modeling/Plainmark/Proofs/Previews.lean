import Plainmark.Proofs.Directories
import Plainmark.Proofs.Paths

namespace Plainmark.Disk
open Text
variable {disk : Disk} {path : Path} {place : Location}

theorem walk_split {final : Location} {first rest : List Text}
    (walked : disk.walk place (first ++ rest) = .ok final) :
    ∃ middle, disk.walk place first = .ok middle ∧ disk.walk middle rest = .ok final := by
  induction first generalizing place with
  | nil => exact ⟨place,rfl,walked⟩
  | cons name first ih =>
    obtain ⟨folder,⟨dots,onward⟩ | ⟨other,short,next,onward⟩⟩ := walk_cons.mp walked
    · obtain ⟨middle,one,two⟩ := ih onward
      exact ⟨middle,walk_cons.mpr ⟨folder,.inl ⟨dots,one⟩⟩,two⟩
    · obtain ⟨middle,one,two⟩ := ih onward
      exact ⟨middle,walk_cons.mpr ⟨folder,.inr ⟨other,short,next,one⟩⟩,two⟩

theorem Sound.folder_above (sound : disk.Sound) (folder : disk.entry? place = some .folder) :
    disk.entry? place.dropLast = some .folder := by
  rcases List.eq_nil_or_concat place with rfl | ⟨above,name,rfl⟩
  · exact folder
  · rw [List.concat_eq_append] at folder ⊢
    rw [List.dropLast_concat]
    exact (sound.step folder).1

theorem Sound.start_folder (sound : disk.Sound) (path : Path) :
    disk.entry? (disk.start path) = some .folder := by
  unfold start
  split
  · exact sound.here
  · exact stands_root disk

theorem Sound.reached_file (sound : disk.Sound) {bytes : Bytes} {mode : Nat}
    (found : disk.find path = .ok (place,.file bytes mode)) :
    ∃ folder name, place = folder ++ [name] ∧ disk.Reached path folder name := by
  obtain ⟨anchor,names⟩ := path
  obtain ⟨plain,located,stands⟩ := find_eq_ok_iff.mp found
  obtain ⟨short,walked⟩ := locate_eq_ok_iff.mp located
  rcases List.eq_nil_or_concat names with rfl | ⟨above,name,rfl⟩
  · obtain rfl := Except.ok.inj walked
    rw [sound.start_folder] at stands
    cases stands
  · rw [List.concat_eq_append] at *
    obtain ⟨folder,upper,last⟩ := walk_split walked
    obtain ⟨inside,⟨rfl,onward⟩ | ⟨other,fits,next,onward⟩⟩ := walk_cons.mp last
    · obtain rfl := Except.ok.inj onward
      rw [sound.folder_above inside] at stands
      cases stands
    · obtain rfl := Except.ok.inj onward
      have named := (sound.step stands).2
      have opened : disk.entry? ([] ++ folder) = some .folder := inside
      refine ⟨folder,name,rfl,plain,located,?_,List.getLast?_concat,other,
        sound.walk_below opened,inside⟩
      rw [Path.parent,List.dropLast_concat]
      exact locate_eq_ok_iff.mpr
        ⟨Nat.le_trans (Path.size_parent_le named.filled) short,upper⟩

theorem discover_file {bytes : Bytes} {mode : Nat}
    (found : disk.find path = .ok (place,.file bytes mode)) : disk.discover path = .ok [path] := by
  rw [discover,found]
  rfl

theorem discover_unfound {trouble : Trouble} (unfound : disk.find path = .error trouble) :
    disk.discover path = (settle (.error trouble : Except Trouble Unit)).map fun _ => [path] := by
  unfold discover
  rw [unfound]
  cases trouble with
  | access obstacle other => cases obstacle <;> rfl
  | writing obstacle temporary target => rfl
  | nul => rfl
  | undecodable fault => rfl

theorem Sound.listed_file {tag : Text} {bytes : Bytes} {mode : Nat} (sound : disk.Sound)
    (found : disk.find path = .ok (place,.file bytes mode)) (untagged : disk.Untagged tag path) :
    disk.Listed tag [path] := by
  obtain ⟨folder,name,rfl,reached⟩ := sound.reached_file found
  refine ⟨List.nodup_singleton path,?_,?_,untagged _ (discover_file found)⟩
  · intro one first other second _
    rw [List.mem_singleton.mp first,List.mem_singleton.mp second]
  · intro one member
    rw [List.mem_singleton.mp member]
    exact ⟨folder,name,bytes,mode,reached,(find_eq_ok_iff.mp found).2.2⟩

theorem Sound.listed_found {tag : Text} {entry : Entry} (sound : disk.Sound)
    (found : disk.find path = .ok (place,entry)) (spellable : disk.Spellable path place)
    (untagged : disk.Untagged tag path) :
    ∃ paths, disk.discover path = .ok paths ∧ disk.Listed tag paths := by
  cases entry with
  | file bytes mode => exact ⟨[path],discover_file found,sound.listed_file found untagged⟩
  | folder => exact sound.listed found spellable untagged

end Plainmark.Disk

namespace Plainmark.Job
open Text

def foreseen? (job : Job) (disk : Disk) (path : Path) : Option FileResult :=
  match disk.readText path with
  | .error _ => none
  | .ok before => some ⟨path,before,job.rewritten disk path before,false⟩

def unread (job : Job) (disk : Disk) (paths : List Path) : List Path :=
  paths.filter fun path => (job.foreseen? disk path).isNone

def pending (job : Job) (disk : Disk) (paths : List Path) : List FileResult :=
  (paths.filterMap (job.foreseen? disk)).filter FileResult.changed

def roomy (job : Job) (disk : Disk) (result : FileResult) : Bool :=
  !decide (disk.Crowded job.tag result.path)

def writable (job : Job) (disk : Disk) (paths : List Path) : List FileResult :=
  (job.pending disk paths).filter (job.roomy disk)

-- The files that fail when they are to be written: those that cannot be read,
-- and those that would change and cannot be written.
def failing (job : Job) (disk : Disk) (paths : List Path) : List Path :=
  paths.filter fun path =>
    match job.foreseen? disk path with
    | none => true
    | some result => result.changed && !job.roomy disk result

variable {job : Job} {disk : Disk} {paths : List Path} {path : Path}

theorem expected?_foreseen? (job : Job) (disk : Disk) (path : Path) :
    job.expected? disk path = (job.foreseen? disk path).bind fun result =>
      if result.changed then
        if job.roomy disk result then some { result with written := true } else none
      else some result := by
  unfold expected? foreseen?
  cases disk.readText path with
  | error trouble => rfl
  | ok before =>
    by_cases same : before = job.rewritten disk path before
    · simp [FileResult.changed,← same]
    · by_cases crowded : disk.Crowded job.tag path
      · simp [FileResult.changed,roomy,same,crowded]
      · simp [FileResult.changed,roomy,same,crowded]

theorem readText_aside {trouble : Trouble} (plain : path.holdsNul = false)
    (failed : disk.readText path = .error trouble) : trouble.ofOneFile = true := by
  cases found : disk.find path with
  | error cause =>
    rw [Disk.readText,Disk.read,found] at failed
    cases failed
    rcases Disk.find_error plain found with rfl | ⟨obstacle,_,rfl⟩
    · rfl
    · rfl
  | ok there =>
    obtain ⟨place,entry⟩ := there
    cases entry with
    | folder =>
      rw [Disk.readText,Disk.read,found] at failed
      cases failed
      rfl
    | file bytes mode =>
      rw [readText_file found] at failed
      cases decoded : Utf8.decode bytes with
      | ok text =>
        rw [decoded] at failed
        cases failed
      | error fault =>
        rw [decoded] at failed
        cases failed
        rfl

theorem convertFile_reading (disk : Disk) (reads : job.writes = false)
    (plain : path.holdsNul = false) :
    (job.convertFile disk path).disk = disk ∧
      match job.foreseen? disk path with
      | some result => (job.convertFile disk path).result = .ok result
      | none => ∃ trouble, (job.convertFile disk path).result = .error trouble ∧
          trouble.ofOneFile = true := by
  unfold convertFile foreseen?
  cases text : disk.readText path with
  | error trouble => exact ⟨rfl,trouble,rfl,readText_aside plain text⟩
  | ok before =>
    dsimp only
    rw [if_neg (by simp [reads])]
    exact ⟨rfl,rfl⟩

theorem reading_run (reads : job.writes = false) (progress : Progress)
    (plain : ∀ path ∈ paths, path.holdsNul = false) :
    (job.runFiles progress paths).aborted = none ∧
      (job.runFiles progress paths).progress.disk = progress.disk ∧
      (job.runFiles progress paths).progress.results =
        progress.results ++ paths.filterMap (job.foreseen? progress.disk) ∧
      (job.runFiles progress paths).progress.failures.map Prod.fst =
        progress.failures.map Prod.fst ++ job.unread progress.disk paths := by
  unfold unread
  induction paths generalizing progress with
  | nil =>
    simp only [List.filterMap_nil,List.filter_nil,List.append_nil]
    exact ⟨rfl,rfl,rfl,rfl⟩
  | cons path paths ih =>
    obtain ⟨kept,answers⟩ :=
      convertFile_reading progress.disk reads (plain path List.mem_cons_self)
    have rest : ∀ other ∈ paths, other.holdsNul = false :=
      fun other member => plain other (List.mem_cons_of_mem _ member)
    cases foresees : job.foreseen? progress.disk path with
    | some result =>
      rw [foresees] at answers
      obtain ⟨records,ran⟩ := runFiles_done paths answers
      rw [kept] at ran
      obtain ⟨aborted,same,results,failures⟩ := ih ⟨progress.disk,records,_,_⟩ rest
      rw [ran]
      refine ⟨aborted,same,?_,?_⟩
      · rw [results,List.filterMap_cons_some foresees,List.append_assoc,List.singleton_append]
      · rw [failures,List.filter_cons_of_neg (by simp [foresees])]
    | none =>
      rw [foresees] at answers
      obtain ⟨trouble,failed,aside⟩ := answers
      obtain ⟨records,ran⟩ := runFiles_aside paths failed aside
      rw [kept] at ran
      obtain ⟨aborted,same,results,failures⟩ := ih ⟨progress.disk,records,_,_⟩ rest
      rw [ran]
      refine ⟨aborted,same,?_,?_⟩
      · rw [results,List.filterMap_cons_none foresees]
      · rw [failures,List.filter_cons_of_pos (by simp [foresees]),List.map_append,
          List.append_assoc]
        rfl

theorem reads_all (job : Job) (reads : job.writes = false) (listed : disk.Listed job.tag paths) :
    ∃ progress, job.runFiles ⟨disk,[],[],[]⟩ paths = ⟨progress,none⟩ ∧ progress.disk = disk ∧
      progress.results = paths.filterMap (job.foreseen? disk) ∧
        progress.failures.map Prod.fst = job.unread disk paths := by
  have plain : ∀ path ∈ paths, path.holdsNul = false := by
    intro path member
    obtain ⟨_,_,_,_,reached,_⟩ := listed.files path member
    exact reached.plain
  obtain ⟨whole,kept,results,failures⟩ := reading_run reads ⟨disk,[],[],[]⟩ plain
  generalize job.runFiles ⟨disk,[],[],[]⟩ paths = outcome at whole kept results failures
  obtain ⟨progress,aborted⟩ := outcome
  obtain rfl : aborted = none := whole
  exact ⟨progress,rfl,kept,results,failures⟩

theorem expected?_isNone (job : Job) (disk : Disk) (path : Path) :
    (job.expected? disk path).isNone = match job.foreseen? disk path with
      | none => true
      | some result => result.changed && !job.roomy disk result := by
  rw [expected?_foreseen?]
  cases job.foreseen? disk path with
  | none => rfl
  | some result =>
    dsimp only [Option.bind_some]
    cases result.changed <;> cases job.roomy disk result <;> rfl

theorem failing_eq (job : Job) (disk : Disk) (paths : List Path) :
    job.failing disk paths = paths.filter fun path => (job.expected? disk path).isNone := by
  unfold failing
  refine List.filter_congr fun path _ => ?_
  rw [expected?_isNone]

theorem writes_all (steady : job.Steady) (writes : job.writes = true)
    (listed : disk.Listed job.tag paths) :
    ∃ progress, job.runFiles ⟨disk,[],[],[]⟩ paths = ⟨progress,none⟩ ∧
      progress.results = paths.filterMap (job.expected? disk) ∧
        progress.failures.map Prod.fst = job.failing disk paths := by
  obtain ⟨whole,results,failures,_⟩ := (Reflects.start job disk).run ⟨disk,[],[],[]⟩ steady writes
    (by rwa [List.append_nil])
  rw [failing_eq]
  generalize job.runFiles ⟨disk,[],[],[]⟩ paths = outcome at whole results failures
  obtain ⟨progress,aborted⟩ := outcome
  obtain rfl : aborted = none := whole
  exact ⟨progress,rfl,results,failures⟩

theorem written_eq (job : Job) (disk : Disk) (paths : List Path) :
    (paths.filterMap (job.expected? disk)).filter FileResult.written =
      (job.writable disk paths).map fun result => { result with written := true } := by
  unfold writable pending
  induction paths with
  | nil => rfl
  | cons path paths ih =>
    have expects := expected?_foreseen? job disk path
    cases foresees : job.foreseen? disk path with
    | none =>
      rw [foresees] at expects
      rw [List.filterMap_cons_none expects,List.filterMap_cons_none foresees,ih]
    | some result =>
      have fresh : result.written = false := by
        unfold foreseen? at foresees
        split at foresees
        · cases foresees
        · obtain rfl := Option.some.inj foresees
          rfl
      rw [foresees,Option.bind_some] at expects
      rw [List.filterMap_cons_some foresees]
      cases changes : result.changed with
      | false =>
        rw [changes] at expects
        rw [List.filterMap_cons_some expects,List.filter_cons_of_neg (by simp [fresh]),
          List.filter_cons_of_neg (by simp [changes]),ih]
      | true =>
        rw [changes] at expects
        rw [List.filter_cons_of_pos changes]
        cases fits : job.roomy disk result with
        | false =>
          rw [fits] at expects
          rw [List.filterMap_cons_none expects,List.filter_cons_of_neg (by simp [fits]),ih]
        | true =>
          rw [fits] at expects
          rw [List.filterMap_cons_some expects,List.filter_cons_of_pos rfl,
            List.filter_cons_of_pos fits,ih,List.map_cons]

theorem length_filterMap_filter (answer : Path → Option FileResult) (paths : List Path) :
    (paths.filterMap answer).length + (paths.filter fun path => (answer path).isNone).length =
      paths.length := by
  induction paths with
  | nil => rfl
  | cons path paths ih =>
    cases answers : answer path with
    | none =>
      rw [List.filterMap_cons_none answers,List.filter_cons_of_pos (by simp [answers]),
        List.length_cons,List.length_cons]
      omega
    | some result =>
      rw [List.filterMap_cons_some answers,List.filter_cons_of_neg (by simp [answers]),
        List.length_cons,List.length_cons]
      omega

theorem pending_inOrder (job : Job) (disk : Disk) (paths : List Path) :
    ((job.pending disk paths).map FileResult.path).Sublist paths := by
  have foreseen : ∀ path result, job.foreseen? disk path = some result → result.path = path := by
    intro path result foresees
    unfold foreseen? at foresees
    split at foresees
    · cases foresees
    · obtain rfl := Option.some.inj foresees
      rfl
  have all : ((paths.filterMap (job.foreseen? disk)).map FileResult.path).Sublist paths := by
    induction paths with
    | nil => exact .slnil
    | cons path paths ih =>
      cases foresees : job.foreseen? disk path with
      | none =>
        rw [List.filterMap_cons_none foresees]
        exact ih.cons path
      | some result =>
        rw [List.filterMap_cons_some foresees,List.map_cons,foreseen path result foresees]
        exact ih.cons_cons path
  exact (List.filter_sublist.map FileResult.path).trans all

end Plainmark.Job
