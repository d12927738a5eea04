import Plainmark.Proofs.Configurations
import Plainmark.Proofs.Failures
import Plainmark.Proofs.Spans

namespace Plainmark.Record
variable {low high : Level}

theorem shown_of_le (lower : low.severity ≤ high.severity) {record : Record}
    (shows : record.shown high = true) : record.shown low = true := by
  rw [shown,decide_eq_true_eq] at shows ⊢
  exact lower.trans shows

theorem filter_shown_filter (lower : low.severity ≤ high.severity) (records : List Record) :
    (records.filter (shown low)).filter (shown high) = records.filter (shown high) := by
  rw [List.filter_filter]
  refine List.filter_congr fun record _ => ?_
  cases shows : record.shown high with
  | false => rfl
  | true => rw [shown_of_le lower shows,Bool.and_true]

theorem shown_sublist (lower : low.severity ≤ high.severity) (records : List Record) :
    (records.filter (shown high)).Sublist (records.filter (shown low)) := by
  rw [← filter_shown_filter lower]
  exact List.filter_sublist

end Plainmark.Record

namespace Plainmark.Conversion

theorem through_records (context : Context) (stages : List Stage) (text : Text) :
    (through context stages text).records =
      (trace context stages text).flatMap fun done => done.2.records := by
  suffices behind : ∀ records, (stages.foldl (fun (done : Logged) stage =>
      let result := stage.apply context done.text
      ⟨result.text,done.records ++ result.records⟩) ⟨text,records⟩).records =
        records ++ (trace context stages text).flatMap fun done => done.2.records from behind []
  induction stages generalizing text with
  | nil => exact fun records => (List.append_nil records).symm
  | cons stage stages ih =>
    intro records
    rw [List.foldl_cons,trace,List.flatMap_cons,← List.append_assoc]
    exact ih _ _

theorem mem_trace (context : Context) {stages : List Stage} {stage : Stage}
    (member : stage ∈ stages) (text : Text) :
    ∃ before, (stage,stage.apply context before) ∈ trace context stages text := by
  induction stages generalizing text with
  | nil => cases member
  | cons first stages ih =>
    rw [trace]
    rcases List.mem_cons.mp member with rfl | later
    · exact ⟨text,List.mem_cons_self⟩
    · obtain ⟨before,inside⟩ := ih later (first.apply context text).text
      exact ⟨before,List.mem_cons_of_mem _ inside⟩

theorem scaffold_detailed (context : Context) (text : Text) :
    ∃ record ∈ (Stage.apply context .scaffold text).records, record.level = .debug := by
  change ∃ record ∈ (Substitution.apply Scaffold.pattern Stage.drop _ text).records, _
  rw [Substitution.apply_records]
  cases Scaffold.pattern.spans text with
  | nil => exact ⟨_,List.mem_append_right _ List.mem_cons_self,rfl⟩
  | cons span spans => exact ⟨_,List.mem_cons_self,rfl⟩

theorem convert_detailed (context : Context) (text : Text) :
    ∃ record ∈ (convert context text).records, record.level = .debug := by
  have member : Stage.scaffold ∈ Stage.all := by decide
  obtain ⟨before,inside⟩ := mem_trace context member text
  obtain ⟨record,reported,detail⟩ := scaffold_detailed context before
  refine ⟨record,?_,detail⟩
  rw [convert,through_records]
  exact List.mem_flatMap.mpr ⟨_,inside,reported⟩

end Plainmark.Conversion

namespace Plainmark.Job
open Text

def reports (job : Job) : Disk × Path → List Record
  | (disk,path) =>
    let outcome := job.convertFile disk path
    match outcome.result with
    | .ok _ => outcome.records
    | .error trouble => outcome.records ++ [skipped path trouble]

def Reads (job : Job) (disk : Disk) (path : Path) : Prop :=
  ∃ paths, disk.discover path = .ok paths ∧
    ∃ turn ∈ job.turns disk paths, ∃ text, turn.1.readText turn.2 = .ok text

variable {job : Job} {disk : Disk} {paths : List Path} {path : Path} {trouble : Trouble}

theorem reports_done {result : FileResult}
    (done : (job.convertFile disk path).result = .ok result) :
    job.reports (disk,path) = (job.convertFile disk path).records := by
  unfold reports
  dsimp only
  rw [done]

theorem reports_aside (failed : (job.convertFile disk path).result = .error trouble) :
    job.reports (disk,path) =
      (job.convertFile disk path).records ++ [skipped path trouble] := by
  unfold reports
  dsimp only
  rw [failed]

-- A turn goes into detail exactly where its file is read: otherwise it only tells
-- that it begins and why it is skipped.
theorem reports_detailed (job : Job) {text : Text} (read : disk.readText path = .ok text) :
    ∃ record ∈ job.reports (disk,path), record.level = .debug := by
  obtain ⟨record,reported,detail⟩ := Conversion.convert_detailed (job.context disk path) text
  have kept : record ∈ (job.convertFile disk path).records := by
    unfold convertFile
    rw [read]
    dsimp only
    split
    · split
      · exact List.mem_cons_of_mem _ reported
      · exact List.mem_cons_of_mem _ reported
    · exact List.mem_cons_of_mem _ reported
  refine ⟨record,?_,detail⟩
  unfold reports
  dsimp only
  split
  · exact kept
  · exact List.mem_append_left _ kept

theorem reports_brief (unread : disk.readText path = .error trouble) :
    job.reports (disk,path) = [processing path,skipped path trouble] := by
  have answers : job.convertFile disk path = ⟨disk,[processing path],.error trouble⟩ := by
    unfold convertFile
    rw [unread]
  rw [reports_aside (congrArg FileOutcome.result answers),answers]
  rfl

theorem runFiles_reports (progress : Progress) (plain : ∀ path ∈ paths, path.holdsNul = false) :
    (job.runFiles progress paths).progress.records =
      progress.records ++ (job.turns progress.disk paths).flatMap job.reports := by
  induction paths generalizing progress with
  | nil => exact (List.append_nil _).symm
  | cons path paths ih =>
    obtain ⟨clean,rest⟩ := List.forall_mem_cons.mp plain
    rw [turns,List.flatMap_cons,runFiles]
    cases answers : (job.convertFile progress.disk path).result with
    | ok result =>
      dsimp only
      rw [ih _ rest,reports_done answers,List.append_assoc]
    | error trouble =>
      -- Whatever stops a file with a plain path leaves the others their turns.
      have one := (convertFile_error_iff.mp answers).aside clean
      dsimp only
      rw [if_pos one,ih _ rest,reports_aside answers]
      simp only [List.append_assoc]

theorem run_reports (job : Job) (sound : disk.Sound) (plain : path.holdsNul = false)
    (discovered : disk.discover path = .ok paths) :
    (job.run disk path).progress.records = (job.turns disk paths).flatMap job.reports := by
  have listable : disk.Listable path := by
    by_contra unlistable
    obtain ⟨entry,failed⟩ := sound.discover_unlistable plain unlistable
    cases discovered.symm.trans failed
  rw [run,discovered]
  exact job.runFiles_reports ⟨disk,[],[],[]⟩ (sound.plain_listed plain listable discovered)

theorem run_detailed (sound : disk.Sound) (plain : path.holdsNul = false)
    (reads : job.Reads disk path) :
    ∃ record ∈ (job.run disk path).progress.records, record.level = .debug := by
  obtain ⟨paths,discovered,turn,member,text,read⟩ := reads
  obtain ⟨record,reported,detail⟩ := reports_detailed job read
  refine ⟨record,?_,detail⟩
  rw [job.run_reports sound plain discovered]
  exact List.mem_flatMap.mpr ⟨turn,member,reported⟩

theorem run_brief (sound : disk.Sound) (plain : path.holdsNul = false)
    (unread : ¬ job.Reads disk path) :
    ∀ record ∈ (job.run disk path).progress.records, record.shown .info = true := by
  intro record member
  cases discovered : disk.discover path with
  | error trouble =>
    rw [run,discovered] at member
    cases member
  | ok paths =>
    rw [job.run_reports sound plain discovered] at member
    obtain ⟨turn,listed,reported⟩ := List.mem_flatMap.mp member
    cases read : turn.1.readText turn.2 with
    | ok text => exact absurd ⟨paths,discovered,turn,listed,text,read⟩ unread
    | error trouble =>
      rw [reports_brief read] at reported
      rcases List.mem_pair.mp reported with rfl | rfl
      · rfl
      · rfl

end Plainmark.Job

namespace Plainmark.Outcome

def logged (outcome : Outcome) : List Record := outcome.errors.filterMap Sum.getLeft?

def logLines (outcome : Outcome) : List Text := outcome.logged.map (Record.line [])

end Plainmark.Outcome

namespace Plainmark.Command
open Text
variable {session : Session} {path : Text} {root : Option Text} {verbosity : Nat}
  {settings : Settings}

-- One more flag lowers the threshold, except that the first one takes the place
-- of a level that is configured lower.
theorem threshold_falls (settings : Settings) (verbosity : Nat)
    (modest : verbosity = 0 → Level.info.severity ≤ settings.logLevel.severity) :
    (threshold settings (verbosity + 1)).severity ≤ (threshold settings verbosity).severity := by
  match verbosity with
  | 0 => exact modest rfl
  | 1 => exact (by decide : Level.debug.severity ≤ Level.info.severity)
  | flags + 2 =>
    have deep : ∀ flags, threshold settings (flags + 2) = .debug := by
      intro flags
      unfold threshold Level.ofVerbosity
      rw [if_neg (by omega),if_neg (by omega),if_neg (by omega),if_neg (by omega)]
    rw [deep flags,deep (flags + 1)]

theorem filterMap_inl (log : List Record) : (log.map Sum.inl : List (Record ⊕ Text)).filterMap
    Sum.getLeft? = log := by
  rw [List.filterMap_map]
  exact List.filterMap_some

theorem filterMap_warnings (failures : List (Path × Trouble)) :
    (failures.map fun failure => (.inr (warning failure) : Record ⊕ Text)).filterMap
      Sum.getLeft? = [] := by
  rw [List.filterMap_map,List.filterMap_eq_nil_iff]
  exact fun _ _ => rfl

theorem logged_run (task : Task) (verbosity : Nat)
    (configured : Configuration.load session.disk session.environment (rootOverride root) =
      .ok settings)
    (plain : (Path.ofText path).holdsNul = false) :
    (run session (.batch task path root verbosity)).logged =
      ((Job.onDisk settings (task == .fix) session.tag).run session.disk
        (Path.ofText path)).progress.records.filter (Record.shown (threshold settings verbosity)) := by
  rw [run_batch task plain]
  unfold runBatch Outcome.logged shownRecords
  rw [settle_ok configured]
  dsimp only
  split
  · exact filterMap_inl _
  · split
    · rw [List.filterMap_append,filterMap_inl,filterMap_warnings,List.append_nil]
    · rw [List.filterMap_append,filterMap_inl,filterMap_warnings,List.append_nil]

theorem logged_unsettled (session : Session) (task : Task) (path : Text) (root : Option Text)
    (verbosity : Nat) (unsettled : ¬ ∃ settings, (Path.ofText path).holdsNul = false ∧
      Configuration.load session.disk session.environment (rootOverride root) = .ok settings) :
    (run session (.batch task path root verbosity)).logged = [] := by
  cases nul : (Path.ofText path).holdsNul with
  | true =>
    rw [Path.holdsNul_ofText] at nul
    rw [run,pathOf,nul]
    rfl
  | false =>
    cases configured : Configuration.load session.disk session.environment (rootOverride root) with
    | ok settings => exact absurd ⟨settings,nul,configured⟩ unsettled
    | error fault =>
      rw [run_batch task nul,runBatch,settle_failed configured]
      unfold told
      dsimp only
      split
      · rfl
      · rfl

def Detailed (session : Session) (task : Task) (path : Text) (root : Option Text) : Prop :=
  ∃ settings, (Path.ofText path).holdsNul = false ∧
    Configuration.load session.disk session.environment (rootOverride root) = .ok settings ∧
      (settings.logLevel = .trace ∨ settings.logLevel = .debug) ∧
        (Job.onDisk settings (task == .fix) session.tag).Reads session.disk (Path.ofText path)

theorem first_flag (task : Task) (sound : session.disk.Sound)
    (configured : Configuration.load session.disk session.environment (rootOverride root) =
      .ok settings)
    (plain : (Path.ofText path).holdsNul = false)
    (low : settings.logLevel = .trace ∨ settings.logLevel = .debug) :
    (run session (.batch task path root 1)).logged =
        (run session (.batch task path root 0)).logged.filter (Record.shown .info) ∧
      ((∀ record ∈ (run session (.batch task path root 0)).logged, record.shown .info = true) ↔
        ¬ (Job.onDisk settings (task == .fix) session.tag).Reads session.disk
          (Path.ofText path)) := by
  have lower : settings.logLevel.severity ≤ Level.debug.severity := by
    rcases low with level | level
    · rw [level]
      decide
    · rw [level]
  have thin := logged_run task 1 configured plain
  rw [logged_run task 0 configured plain]
  have unflagged : threshold settings 0 = settings.logLevel := rfl
  have flagged : threshold settings 1 = .info := rfl
  rw [flagged] at thin
  rw [unflagged]
  refine ⟨?_,?_,?_⟩
  · rw [Record.filter_shown_filter (lower.trans (by decide)),thin]
  · intro all reads
    obtain ⟨record,member,detail⟩ := Job.run_detailed sound plain reads
    have visible : record.shown settings.logLevel = true := by
      rwa [Record.shown,detail,decide_eq_true_eq]
    -- One flag would have to show this record as well.
    have heavy := all record (List.mem_filter.mpr ⟨member,visible⟩)
    rw [Record.shown,detail] at heavy
    cases heavy
  · intro unread record member
    exact Job.run_brief sound plain unread record (List.mem_filter.mp member).1

theorem lines_filter_iff (records : List Record) (keep : Record → Bool) :
    (records.map (Record.line [])).Sublist ((records.filter keep).map (Record.line [])) ↔
      ∀ record ∈ records, keep record = true := by
  constructor
  · intro whole
    -- Lines of different records may be the same, so they are counted.
    have length := whole.length_le
    rw [List.length_map,List.length_map] at length
    exact List.length_filter_eq_length_iff.mp
      (Nat.le_antisymm (List.length_filter_le keep records) length)
  · intro all
    rw [List.filter_eq_self.mpr all]

theorem flags_add (task : Task)
    (configured : Configuration.load session.disk session.environment (rootOverride root) =
      .ok settings)
    (plain : (Path.ofText path).holdsNul = false)
    (modest : ¬ (verbosity = 0 ∧ (settings.logLevel = .trace ∨ settings.logLevel = .debug))) :
    (run session (.batch task path root verbosity)).logged.Sublist
      (run session (.batch task path root (verbosity + 1))).logged := by
  have falls : (threshold settings (verbosity + 1)).severity ≤
      (threshold settings verbosity).severity := by
    refine threshold_falls settings verbosity fun none => ?_
    have high := fun low => modest ⟨none,low⟩
    revert high
    cases settings.logLevel <;> decide
  rw [logged_run task _ configured plain,logged_run task _ configured plain]
  exact Record.shown_sublist falls _

-- What a batch logs with some flags, it logs with one more: always what is of
-- some weight, and the rest as well, unless the first flag takes the place of a
-- level that is configured lower and some file is read.
theorem more_flags_iff (session : Session) (task : Task) (path : Text) (root : Option Text)
    (verbosity : Nat) (sound : session.disk.Sound) :
    let outcome := fun flags => run session (.batch task path root flags)
    ((outcome verbosity).logLines.Sublist (outcome (verbosity + 1)).logLines ↔
      ¬ (verbosity = 0 ∧ Detailed session task path root)) ∧
    ((outcome verbosity).logged.filter (Record.shown .info)).Sublist
      (outcome (verbosity + 1)).logged := by
  intro outcome
  by_cases settled : ∃ settings, (Path.ofText path).holdsNul = false ∧
      Configuration.load session.disk session.environment (rootOverride root) = .ok settings
  · obtain ⟨settings,plain,configured⟩ := settled
    by_cases early : verbosity = 0 ∧ (settings.logLevel = .trace ∨ settings.logLevel = .debug)
    · -- The flag raises the threshold, which only reading a file can make felt.
      obtain ⟨rfl,low⟩ := early
      obtain ⟨thin,whole⟩ := first_flag task sound configured plain low
      have detailed : Detailed session task path root ↔
          (Job.onDisk settings (task == .fix) session.tag).Reads session.disk
            (Path.ofText path) := by
        constructor
        · rintro ⟨other,_,same,_,reads⟩
          rwa [← Except.ok.inj (configured.symm.trans same)] at reads
        · exact fun reads => ⟨settings,plain,configured,low,reads⟩
      refine ⟨?_,thin ▸ List.Sublist.refl _⟩
      unfold Outcome.logLines
      rw [Nat.zero_add,thin,lines_filter_iff,whole,detailed,eq_self,true_and]
    · have adds := flags_add task configured plain early
      refine ⟨iff_of_true (adds.map _) ?_,List.filter_sublist.trans adds⟩
      rintro ⟨none,other,_,same,low,_⟩
      rw [← Except.ok.inj (configured.symm.trans same)] at low
      exact early ⟨none,low⟩
  · have silent : ∀ flags, (outcome flags).logged = [] :=
      fun flags => logged_unsettled session task path root flags settled
    unfold Outcome.logLines
    rw [silent,silent]
    refine ⟨iff_of_true (List.Sublist.refl _) ?_,List.Sublist.refl _⟩
    rintro ⟨_,settings,plain,configured,_⟩
    exact settled ⟨settings,plain,configured⟩

def detailedSession : Session := configured "log_level: DEBUG\n".toList

theorem second_flag_adds : detailedSession.disk.Sound ∧
    (run detailedSession (.batch .check "i.md".toList none 1)).logLines.Sublist
      (run detailedSession (.batch .check "i.md".toList none 2)).logLines ∧
    ((run detailedSession (.batch .check "i.md".toList none 0)).logged.filter
      (Record.shown .info)).Sublist
        (run detailedSession (.batch .check "i.md".toList none 1)).logged := by
  have sound : detailedSession.disk.Sound := by decide +kernel
  obtain ⟨later,_⟩ := more_flags_iff detailedSession .check "i.md".toList none 1 sound
  obtain ⟨_,first⟩ := more_flags_iff detailedSession .check "i.md".toList none 0 sound
  exact ⟨sound,later.mpr fun early => Nat.one_ne_zero early.1,first⟩

theorem first_flag_hides : detailedSession.disk.Sound ∧
    (run detailedSession (.batch .check "i.md".toList none 0)).logLines.length = 10 ∧
    (run detailedSession (.batch .check "i.md".toList none 1)).logLines =
      [Record.line [] (Job.processing (Path.ofText "i.md".toList))] ∧
    ¬ (run detailedSession (.batch .check "i.md".toList none 0)).logLines.Sublist
      (run detailedSession (.batch .check "i.md".toList none 1)).logLines := by
  decide +kernel

end Plainmark.Command
