import Plainmark.Command
import Plainmark.Proofs.Alignment
import Plainmark.Proofs.Previews

namespace Plainmark.Command
open Text

def Warns (outcome : Outcome) (failed : List Path) : Prop :=
  ∃ (log : List Record) (failures : List (Path × Trouble)),
    outcome.errors = log.map .inl ++ failures.map (fun failure => .inr (warning failure)) ∧
      failures.map Prod.fst = failed

def closing (failed all : Nat) (line : Text) : Text :=
  if failed ≠ 0 ∧ failed = all then [] else line

def checkLine (pending read : Nat) : Text :=
  decimal pending ++ " of ".toList ++ decimal read ++ " file(s) would change\n".toList

def fixLine (rewritten unchanged failed : Nat) : Text :=
  "Done - ".toList ++ decimal rewritten ++ " rewritten, ".toList ++ decimal unchanged ++
    " unchanged, ".toList ++ decimal failed ++ " failed\n".toList

-- What a check, a diff and a fix of the same files leave behind: the first two
-- tell of the files that would change, and the third has changed those of them
-- that could be written.
structure Agreement (job : Job) (disk : Disk) (paths : List Path) (check diff fix : Outcome) :
    Prop where
  ended : check.crash = none ∧ diff.crash = none ∧ fix.crash = none
  kept : check.disk = disk ∧ diff.disk = disk
  inOrder : ((job.pending disk paths).map FileResult.path).Sublist paths
  listed : check.output = (job.pending disk paths).flatMap pendingLine ++
    closing (job.unread disk paths).length paths.length
      (checkLine (job.pending disk paths).length
        (paths.length - (job.unread disk paths).length))
  shown : diff.output = (job.pending disk paths).flatMap fun result => (resultDiff result).flatten
  visible : ∀ result ∈ job.pending disk paths, (resultDiff result).flatten ≠ []
  fixed : ∃ unchanged, (job.writable disk paths).length + unchanged +
      (job.failing disk paths).length = paths.length ∧
    fix.output = (job.writable disk paths).flatMap fixedLine ++
      closing (job.failing disk paths).length paths.length
        (fixLine (job.writable disk paths).length unchanged (job.failing disk paths).length)
  warned : Warns check (job.unread disk paths) ∧ Warns diff (job.unread disk paths) ∧
    Warns fix (job.failing disk paths)
  checkStatus : check.status =
    if job.pending disk paths = [] ∧ job.unread disk paths = [] then 0 else 1
  diffStatus : diff.status = if job.unread disk paths = [] then 0 else 1
  fixStatus : fix.status = if job.failing disk paths = [] then 0 else 1

def finished (settings : Settings) (verbosity : Nat) (task : Task) (progress : Progress) :
    Outcome where
  disk := progress.disk
  output := if failed progress && progress.results.isEmpty then [] else report task progress
  errors := shownRecords settings verbosity progress.records ++
    progress.failures.map fun failure => .inr (warning failure)
  status := statusOf (isBad task progress)
  crash := none

variable {session : Session} {path : Text} {root : Option Text} {verbosity : Nat}
  {settings : Settings}

theorem isBad_of_failed {task : Task} {progress : Progress} (bad : failed progress = true) :
    isBad task progress = true := by
  cases task with
  | fix => exact bad
  | diff => exact bad
  | check => rw [isBad,bad,Bool.or_true]

theorem settle_ok
    (configured : Configuration.load session.disk session.environment (rootOverride root) =
      .ok settings) : settle session root = .ok settings := by
  rw [settle,configured]

theorem settle_failed {fault : ConfigurationFault}
    (failed : Configuration.load session.disk session.environment (rootOverride root) =
      .error fault) : settle session root = .error (told session fault) := by
  rw [settle,failed]

theorem told_output (session : Session) (fault : ConfigurationFault) :
    (told session fault).output = [] := by
  unfold told
  split
  · rfl
  · rfl

theorem run_batch (task : Task) (plain : (Path.ofText path).holdsNul = false) :
    run session (.batch task path root verbosity) = runBatch session task path root verbosity := by
  rw [Path.holdsNul_ofText] at plain
  rw [run,pathOf,plain]
  rfl

theorem run_resolve (term : Text) (plain : (Path.ofText path).holdsNul = false) :
    run session (.resolve term path root) = runResolve session term path root := by
  rw [Path.holdsNul_ofText] at plain
  rw [run,pathOf,plain]
  rfl

theorem run_finished (task : Task)
    (configured : Configuration.load session.disk session.environment (rootOverride root) =
      .ok settings)
    (plain : (Path.ofText path).holdsNul = false) {progress : Progress}
    (ran : (Job.onDisk settings (task == .fix) session.tag).run session.disk (Path.ofText path) =
      ⟨progress,none⟩) :
    run session (.batch task path root verbosity) = finished settings verbosity task progress := by
  rw [run_batch task plain]
  unfold runBatch finished
  rw [settle_ok configured]
  dsimp only
  rw [ran]
  dsimp only
  cases nothing : failed progress && progress.results.isEmpty with
  | false => rfl
  | true =>
    rw [isBad_of_failed (Bool.and_eq_true_iff.mp nothing).1]
    rfl

theorem warns_finished {task : Task} {progress : Progress} {failing : List Path}
    (told : progress.failures.map Prod.fst = failing) :
    Warns (finished settings verbosity task progress) failing :=
  ⟨_,progress.failures,rfl,told⟩

theorem failed_eq {progress : Progress} {failing : List Path}
    (told : progress.failures.map Prod.fst = failing) : failed progress = !failing.isEmpty := by
  rw [failed,← told,List.isEmpty_map]

theorem statusOf_failed {progress : Progress} {failing : List Path}
    (told : progress.failures.map Prod.fst = failing) :
    statusOf (failed progress) = if failing = [] then 0 else 1 := by
  rw [failed_eq told]
  cases failing <;> rfl

theorem report_closing {progress : Progress} {failing all : List Path} {lines line : Text}
    (told : progress.failures.map Prod.fst = failing)
    (accounted : progress.results.length + failing.length = all.length)
    (nothing : progress.results = [] → lines = []) :
    (if failed progress && progress.results.isEmpty then [] else lines ++ line) =
      lines ++ closing failing.length all.length line := by
  unfold closing
  rw [failed_eq told,← accounted]
  cases results : progress.results with
  | nil =>
    rw [nothing results]
    cases failing with
    | nil => rfl
    | cons path failing => simp
  | cons result results =>
    rw [if_neg (by simp),if_neg (by simp)]

theorem checkReport_eq {progress : Progress} {listed : List FileResult}
    (told : Command.pending progress = listed) :
    checkReport progress =
      listed.flatMap pendingLine ++ checkLine listed.length progress.results.length := by
  rw [checkReport,checkLine,told]
  simp only [List.append_assoc]

theorem fixedLine_written (result : FileResult) :
    fixedLine { result with written := true } = fixedLine result := rfl

theorem fixReport_eq {progress : Progress} {listed : List FileResult}
    (told : progress.results.filter FileResult.written =
      listed.map fun result => { result with written := true }) :
    fixReport progress = listed.flatMap fixedLine ++
      fixLine listed.length (progress.results.length - listed.length)
        progress.failures.length := by
  have counted : progress.results.countP FileResult.written = listed.length := by
    rw [List.countP_eq_length_filter,told,List.length_map]
  unfold fixReport fixLine
  dsimp only
  rw [counted,told]
  simp only [List.flatMap_map,fixedLine_written,List.append_assoc]

theorem finished_agree {job : Job} {disk : Disk} {paths : List Path} {seen done : Progress}
    (kept : seen.disk = disk) (results : seen.results = paths.filterMap (job.foreseen? disk))
    (unread : seen.failures.map Prod.fst = job.unread disk paths)
    (answers : done.results = paths.filterMap (job.expected? disk))
    (failing : done.failures.map Prod.fst = job.failing disk paths) :
    Agreement job disk paths (finished settings verbosity .check seen)
      (finished settings verbosity .diff seen) (finished settings verbosity .fix done) := by
  have pending : Command.pending seen = job.pending disk paths := by
    rw [Command.pending,results]
    rfl
  have seenAll : seen.results.length + (job.unread disk paths).length = paths.length := by
    rw [results]
    exact Job.length_filterMap_filter _ paths
  have doneAll : done.results.length + (job.failing disk paths).length = paths.length := by
    rw [answers,Job.failing_eq]
    exact Job.length_filterMap_filter _ paths
  have written : done.results.filter FileResult.written =
      (job.writable disk paths).map fun result => { result with written := true } := by
    rw [answers]
    exact job.written_eq disk paths
  have unchanged : (job.writable disk paths).length +
      (done.results.length - (job.writable disk paths).length) = done.results.length := by
    have le := List.length_filter_le FileResult.written done.results
    rw [written,List.length_map] at le
    omega
  refine ⟨⟨rfl,rfl,rfl⟩,⟨kept,kept⟩,job.pending_inOrder disk paths,?_,?_,?_,
    ⟨done.results.length - (job.writable disk paths).length,?_,?_⟩,
    ⟨warns_finished unread,warns_finished unread,warns_finished failing⟩,?_,
    statusOf_failed unread,statusOf_failed failing⟩
  · have nothing : seen.results = [] → (job.pending disk paths).flatMap pendingLine = [] := by
      intro none
      rw [← pending,Command.pending,none]
      rfl
    dsimp only [finished,report]
    rw [checkReport_eq pending,report_closing unread seenAll nothing,← seenAll,
      Nat.add_sub_cancel]
  · dsimp only [finished,report]
    rw [diffReport,pending]
    split
    · rename_i none
      have empty : job.pending disk paths = [] := by
        rw [← pending,Command.pending,List.isEmpty_iff.mp (Bool.and_eq_true_iff.mp none).2]
        rfl
      rw [empty]
      rfl
    · rfl
  · intro result member
    have changed := List.of_mem_filter member
    exact Diff.unified_visible (by simpa [FileResult.changed] using changed) _ _
  · rw [unchanged,doneAll]
  · have failures : done.failures.length = (job.failing disk paths).length := by
      rw [← failing,List.length_map]
    have nothing : done.results = [] → (job.writable disk paths).flatMap fixedLine = [] := by
      intro none
      rw [none,List.length_nil] at unchanged
      rw [List.eq_nil_of_length_eq_zero (Nat.eq_zero_of_add_eq_zero_right unchanged)]
      rfl
    dsimp only [finished,report]
    rw [fixReport_eq written,report_closing failing doneAll nothing,failures]
  · dsimp only [finished,isBad]
    rw [pending,failed_eq unread]
    cases job.pending disk paths with
    | cons result results => rfl
    | nil => cases job.unread disk paths <;> rfl

-- Check and diff say what fix will do to the same files.
theorem tasks_agree (session : Session) (path : Text) (root : Option Text) (verbosity : Nat)
    (settings : Settings) (place : Location) (entry : Entry) (sound : session.disk.Sound)
    (configured : Configuration.load session.disk session.environment (rootOverride root) =
      .ok settings)
    (found : session.disk.find (Path.ofText path) = .ok (place,entry))
    (spellable : session.disk.Spellable (Path.ofText path) place)
    (untagged : session.disk.Untagged session.tag (Path.ofText path)) :
    ∃ paths, session.disk.discover (Path.ofText path) = .ok paths ∧
      Agreement (Job.onDisk settings true session.tag) session.disk paths
        (run session (.batch .check path root verbosity))
        (run session (.batch .diff path root verbosity))
        (run session (.batch .fix path root verbosity)) := by
  obtain ⟨paths,discovered,listed⟩ := sound.listed_found found spellable untagged
  refine ⟨paths,discovered,?_⟩
  have plain := (Disk.find_eq_ok_iff.mp found).1
  have begun : ∀ job : Job, job.run session.disk (Path.ofText path) =
      job.runFiles ⟨session.disk,[],[],[]⟩ paths := by
    intro job
    rw [Job.run,discovered]
  obtain ⟨seen,read,kept,results,unread⟩ :=
    Job.reads_all (Job.onDisk settings false session.tag) rfl listed
  obtain ⟨done,wrote,answers,failing⟩ :=
    Job.writes_all (Job.onDisk_steady settings true session.tag) rfl listed
  rw [run_finished .check configured plain ((begun _).trans read),
    run_finished .diff configured plain ((begun _).trans read),
    run_finished .fix configured plain ((begun _).trans wrote)]
  exact finished_agree kept results unread answers failing

def pagesSession : Session := ⟨Job.pages,fun _ => none,Job.pagesTag⟩

theorem pages_agree :
    Configuration.load pagesSession.disk pagesSession.environment (rootOverride none) = .ok {} ∧
      ∃ paths, pagesSession.disk.discover (Path.ofText Job.pagesFolder) = .ok paths ∧
        Agreement (Job.onDisk {} true pagesSession.tag) pagesSession.disk paths
          (run pagesSession (.batch .check Job.pagesFolder none 0))
          (run pagesSession (.batch .diff Job.pagesFolder none 0))
          (run pagesSession (.batch .fix Job.pagesFolder none 0)) := by
  have sound : pagesSession.disk.Sound := by decide +kernel
  have configured : Configuration.load pagesSession.disk pagesSession.environment
      (rootOverride none) = .ok {} := rfl
  have found : pagesSession.disk.find (Path.ofText Job.pagesFolder) =
      .ok ([Job.pagesFolder],.folder) := by decide +kernel
  have spellable : pagesSession.disk.Spellable (Path.ofText Job.pagesFolder) [Job.pagesFolder] :=
    (Disk.overlong?_eq_none_iff sound found).mp (by decide +kernel)
  have untagged : pagesSession.disk.Untagged pagesSession.tag (Path.ofText Job.pagesFolder) :=
    (Disk.untagged_iff found sound spellable).mpr (by decide +kernel)
  exact ⟨configured,tasks_agree pagesSession Job.pagesFolder none 0 {} [Job.pagesFolder] .folder
    sound configured found spellable untagged⟩

-- A folder with one file that has nothing to change, under two spellings of its
-- path. Under the long one no command comes to its end.
def cabinetSession : Session := ⟨Job.cabinet,fun _ => none,Job.pagesTag⟩

theorem long_spelling_stops_tasks : cabinetSession.disk.Sound ∧
    cabinetSession.disk.find (Path.ofText Job.aisle) = .ok ([Job.aisle],.folder) ∧
      cabinetSession.disk.find (Path.ofText Job.detour.text) = .ok ([Job.aisle],.folder) ∧
        ∀ task ∈ [Task.check,Task.diff,Task.fix],
          (run cabinetSession (.batch task Job.aisle none 0)).status = 0 ∧
            (run cabinetSession (.batch task Job.detour.text none 0)).status = 1 ∧
              (run cabinetSession (.batch task Job.detour.text none 0)).output = [] ∧
                (run cabinetSession (.batch task Job.detour.text none 0)).errors = [] ∧
                  (run cabinetSession (.batch task Job.detour.text none 0)).crash =
                    some (.trouble (.access .nameTooLong
                      ⟨.relative,Job.detour.names ++ [Job.note]⟩)) := by
  decide +kernel

end Plainmark.Command
