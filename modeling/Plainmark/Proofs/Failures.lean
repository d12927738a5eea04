import Plainmark.Proofs.Tasks

namespace Plainmark.Disk
open Text
variable {disk : Disk} {path : Path} {place middle : Location} {obstacle : Obstacle}

-- On the way that some names lead from a place, a folder is asked for a name
-- that is too long for any entry.
def Overnamed (disk : Disk) (place : Location) (names : List Text) : Prop :=
  ∃ front name rest folder, names = front ++ name :: rest ∧ name ≠ Path.dots ∧
    disk.walk place front = .ok folder ∧ disk.entry? folder = some .folder ∧
      nameLimit < Utf8.size name

structure Listable (disk : Disk) (path : Path) : Prop where
  short : Utf8.size path.text ≤ pathLimit
  named : ¬ disk.Overnamed (disk.start path) path.names
  spellable : ∀ folder, disk.find path = .ok (folder,.folder) → disk.Spellable path folder

theorem Overnamed.further {first names : List Text} (walked : disk.walk place first = .ok middle)
    (overnamed : disk.Overnamed middle names) : disk.Overnamed place (first ++ names) := by
  obtain ⟨front,name,rest,folder,rfl,other,inner,stands,long⟩ := overnamed
  refine ⟨first ++ front,name,rest,folder,by simp,other,?_,stands,long⟩
  rw [walk_through walked]
  exact inner

theorem walk_overnamed {names : List Text} (overnamed : disk.Overnamed place names) :
    disk.walk place names = .error .nameTooLong := by
  obtain ⟨front,name,rest,folder,rfl,other,walked,stands,long⟩ := overnamed
  rw [walk_through walked,walk,stands]
  dsimp only
  rw [if_neg other,if_pos long]

theorem walk_error {names : List Text} (failed : disk.walk place names = .error obstacle) :
    obstacle = .missing ∨ obstacle = .notFolder ∨
      obstacle = .nameTooLong ∧ disk.Overnamed place names := by
  induction names generalizing place with
  | nil => cases failed
  | cons name names ih =>
    have further : ∀ next, disk.walk place [name] = .ok next → obstacle = .missing ∨
        obstacle = .notFolder ∨ obstacle = .nameTooLong ∧ disk.Overnamed place (name :: names) := by
      intro next step
      have rest := walk_through step names
      rcases ih (rest.symm.trans failed) with missing | file | ⟨long,overnamed⟩
      · exact .inl missing
      · exact .inr (.inl file)
      · exact .inr (.inr ⟨long,overnamed.further step⟩)
    rw [walk] at failed
    cases stands : disk.entry? place with
    | none =>
      rw [stands] at failed
      cases failed
      exact .inl rfl
    | some entry =>
      rw [stands] at failed
      cases entry with
      | file bytes mode =>
        cases failed
        exact .inr (.inl rfl)
      | folder =>
        by_cases dots : name = Path.dots
        · exact further place.dropLast (walk_cons.mpr ⟨stands,.inl ⟨dots,rfl⟩⟩)
        · by_cases long : nameLimit < Utf8.size name
          · rw [if_neg dots,if_pos long] at failed
            cases failed
            exact .inr (.inr ⟨rfl,[],name,names,place,rfl,dots,rfl,stands,long⟩)
          · by_cases missing : (disk.entry? (place ++ [name])).isNone
            · rw [if_neg dots,if_neg long,if_pos missing] at failed
              cases failed
              exact .inl rfl
            · have there := Option.isSome_iff_ne_none.mpr (mt Option.isNone_iff_eq_none.mpr missing)
              exact further (place ++ [name]) (walk_cons.mpr
                ⟨stands,.inr ⟨dots,Nat.le_of_not_gt long,there,rfl⟩⟩)

theorem locate_error (failed : disk.locate path = .error obstacle) :
    obstacle = .missing ∨ obstacle = .notFolder ∨ obstacle = .nameTooLong ∧
      (pathLimit < Utf8.size path.text ∨ disk.Overnamed (disk.start path) path.names) := by
  unfold locate at failed
  split at failed
  · rename_i long
    cases failed
    exact .inr (.inr ⟨rfl,.inl long⟩)
  · rcases walk_error failed with missing | file | ⟨long,overnamed⟩
    · exact .inl missing
    · exact .inr (.inl file)
    · exact .inr (.inr ⟨long,.inr overnamed⟩)

theorem locate_unlistable (unlistable : pathLimit < Utf8.size path.text ∨
    disk.Overnamed (disk.start path) path.names) : disk.locate path = .error .nameTooLong := by
  unfold locate
  split
  · rfl
  · rename_i short
    exact walk_overnamed (unlistable.resolve_left short)

theorem Sound.discover_listable (sound : disk.Sound) (plain : path.holdsNul = false)
    (listable : disk.Listable path) : disk.discover path = .ok [path] ∨
      ∃ folder, disk.find path = .ok (folder,.folder) ∧ disk.discover path =
        .ok (((disk.documentsBelow folder).mergeSort precedes).map fun names =>
          ⟨path.anchor,path.names ++ names⟩) := by
  cases found : disk.find path with
  | error trouble =>
    left
    rw [discover_unfound found]
    rcases find_error plain found with rfl | ⟨obstacle,failed,rfl⟩
    · rfl
    · rcases locate_error failed with rfl | rfl | ⟨_,long | overnamed⟩
      · rfl
      · rfl
      · exact absurd listable.short (Nat.not_le_of_gt long)
      · exact absurd overnamed listable.named
  | ok there =>
    obtain ⟨folder,entry⟩ := there
    cases entry with
    | file bytes mode => exact .inl (discover_file found)
    | folder =>
      exact .inr ⟨folder,rfl,discover_folder found sound (listable.spellable folder found)⟩

theorem Sound.plain_listed (sound : disk.Sound) (plain : path.holdsNul = false) {paths : List Path}
    (listable : disk.Listable path) (discovered : disk.discover path = .ok paths) :
    ∀ listed ∈ paths, listed.holdsNul = false := by
  intro listed member
  rcases sound.discover_listable plain listable with alone | ⟨folder,_,below⟩
  · obtain rfl := Except.ok.inj (discovered.symm.trans alone)
    rwa [List.mem_singleton.mp member]
  · obtain rfl := Except.ok.inj (discovered.symm.trans below)
    obtain ⟨names,inner,rfl⟩ := List.mem_map.mp member
    obtain ⟨_,bytes,mode,stands⟩ := mem_documentsBelow sound (List.mem_mergeSort.mp inner)
    exact sound.plain_below plain stands

theorem Sound.discover_unlistable (sound : disk.Sound) (plain : path.holdsNul = false)
    (unlistable : ¬ disk.Listable path) :
    ∃ entry, disk.discover path = .error (.access .nameTooLong entry) := by
  by_cases reachable : pathLimit < Utf8.size path.text ∨
      disk.Overnamed (disk.start path) path.names
  · have unfound : disk.find path = .error (.access .nameTooLong path) := by
      unfold find
      rw [plain,locate_unlistable reachable]
      rfl
    exact ⟨path,discover_unfound unfound⟩
  · obtain ⟨short,named⟩ := not_or.mp reachable
    have long : ¬ ∀ folder, disk.find path = .ok (folder,.folder) → disk.Spellable path folder :=
      fun spellable => unlistable ⟨Nat.le_of_not_gt short,named,spellable⟩
    push Not at long
    obtain ⟨folder,found,exceeds⟩ := long
    obtain ⟨names,_,_,_,discovered⟩ := discover_overlong found sound exceeds
    exact ⟨_,discovered⟩

end Plainmark.Disk

namespace Plainmark.Disk
open Text
variable {disk : Disk} {path : Path} {temporary : Location} {trouble : Trouble}

theorem createTemporary_aside {tag : Text} {bytes : Bytes} (plain : path.holdsNul = false)
    (failed : disk.createTemporary tag path bytes = .error trouble) : trouble.ofOneFile = true := by
  unfold createTemporary at failed
  rw [plain] at failed
  simp only [Bool.false_eq_true,if_false] at failed
  split at failed
  · cases failed
    rfl
  · split at failed
    · cases failed
      rfl
    · split at failed
      · split at failed
        · cases failed
          rfl
        · cases failed
      · cases failed
        rfl
      · cases failed
        rfl

theorem copyMode_aside (plain : path.holdsNul = false)
    (failed : disk.copyMode temporary path = .error trouble) : trouble.ofOneFile = true := by
  cases found : disk.find path with
  | ok there =>
    obtain ⟨place,entry⟩ := there
    rw [copyMode,found] at failed
    cases entry <;> cases failed
  | error cause =>
    rw [copyMode,found] at failed
    rcases find_error plain found with rfl | ⟨obstacle,_,rfl⟩
    · cases failed
    · cases obstacle <;> cases failed <;> rfl

theorem moveOver_aside (failed : disk.moveOver temporary path = .error trouble) :
    trouble.ofOneFile = true := by
  unfold moveOver at failed
  dsimp only at failed
  split at failed
  · cases failed
    rfl
  · split at failed
    · split at failed
      · cases failed
        rfl
      · split at failed
        · cases failed
          rfl
        · cases failed
        · cases failed
          rfl
    · cases failed
      rfl
    · cases failed
      rfl
    · cases failed
      rfl

theorem replace_aside {tag text : Text} (plain : path.holdsNul = false)
    (failed : (disk.replace tag path text).2 = .error trouble) : trouble.ofOneFile = true := by
  unfold replace at failed
  cases creates : disk.createTemporary tag path (Utf8.encode text) with
  | error cause =>
    rw [creates] at failed
    cases failed
    exact createTemporary_aside plain creates
  | ok created =>
    rw [creates] at failed
    dsimp only at failed
    cases copies : created.copyMode (disk.temporaryPlace tag path) path with
    | error cause =>
      rw [copies] at failed
      cases failed
      exact copyMode_aside plain copies
    | ok marked =>
      rw [copies] at failed
      cases moves : marked.moveOver (disk.temporaryPlace tag path) path with
      | error cause =>
        simp only [bind,Except.bind,moves] at failed
        cases failed
        exact moveOver_aside moves
      | ok written =>
        simp only [bind,Except.bind,moves] at failed
        cases failed

end Plainmark.Disk

namespace Plainmark.Job
open Text

-- What puts a file aside in its turn: it cannot be looked up, read or decoded, or
-- its new text cannot be written.
def Stumbles (job : Job) (disk : Disk) (path : Path) (trouble : Trouble) : Prop :=
  disk.readText path = .error trouble ∨ ∃ before, disk.readText path = .ok before ∧
    job.writes = true ∧ job.rewritten disk path before ≠ before ∧
      (disk.replace job.tag path (job.rewritten disk path before)).2 = .error trouble

def turns (job : Job) (disk : Disk) : List Path → List (Disk × Path)
  | [] => []
  | path :: paths => (disk,path) :: turns job (job.convertFile disk path).disk paths

def done? (job : Job) (turn : Disk × Path) : Option FileResult :=
  match (job.convertFile turn.1 turn.2).result with
  | .ok result => some result
  | .error _ => none

def aside? (job : Job) (turn : Disk × Path) : Option (Path × Trouble) :=
  match (job.convertFile turn.1 turn.2).result with
  | .ok _ => none
  | .error trouble => some (turn.2,trouble)

structure Recorded (job : Job) (disk : Disk) (paths : List Path) (progress : Progress) : Prop where
  partition : (progress.results.map FileResult.path ++ progress.failures.map Prod.fst).Perm paths
  resultsInOrder : (progress.results.map FileResult.path).Sublist paths
  failuresInOrder : (progress.failures.map Prod.fst).Sublist paths
  failing : ∀ path trouble, (path,trouble) ∈ progress.failures ↔
    ∃ now, (now,path) ∈ job.turns disk paths ∧ job.Stumbles now path trouble

variable {job : Job} {disk : Disk} {paths : List Path} {path : Path} {trouble : Trouble}

theorem convertFile_error_iff :
    (job.convertFile disk path).result = .error trouble ↔ job.Stumbles disk path trouble := by
  unfold convertFile Stumbles
  cases text : disk.readText path with
  | error cause => simp
  | ok before =>
    have made : (Conversion.convert (job.context disk path) before).text =
        job.rewritten disk path before := rfl
    simp only [made,FileResult.changed,reduceCtorEq,Except.ok.injEq,exists_eq_left',false_or]
    by_cases writes : (job.writes && before != job.rewritten disk path before) = true
    · rw [if_pos writes]
      obtain ⟨writing,changes⟩ := Bool.and_eq_true_iff.mp writes
      have differs : job.rewritten disk path before ≠ before := Ne.symm (by simpa using changes)
      generalize disk.replace job.tag path (job.rewritten disk path before) = replaced
      obtain ⟨next,answer⟩ := replaced
      cases answer with
      | ok done => simp
      | error cause => simp [writing,differs]
    · rw [if_neg writes]
      constructor
      · intro failed
        cases failed
      · intro written
        exact absurd (by simpa [written.1] using Ne.symm written.2.1) writes

theorem Stumbles.aside (plain : path.holdsNul = false) (stumbles : job.Stumbles disk path trouble) :
    trouble.ofOneFile = true := by
  rcases stumbles with unread | ⟨before,_,_,_,unwritten⟩
  · exact readText_aside plain unread
  · exact Disk.replace_aside plain unwritten

theorem convertFile_path {result : FileResult}
    (done : (job.convertFile disk path).result = .ok result) : result.path = path := by
  unfold convertFile at done
  split at done
  · cases done
  · dsimp only at done
    split at done
    · split at done
      · cases done
        rfl
      · cases done
    · cases done
      rfl

theorem done?_some {result : FileResult} {turn : Disk × Path} (done : job.done? turn = some result) :
    result.path = turn.2 := by
  unfold done? at done
  split at done
  · rename_i other answers
    cases done
    exact convertFile_path answers
  · cases done

theorem aside?_eq_some_iff {turn : Disk × Path} :
    job.aside? turn = some (path,trouble) ↔ turn.2 = path ∧ job.Stumbles turn.1 path trouble := by
  unfold aside?
  constructor
  · intro aside
    split at aside
    · cases aside
    · rename_i cause failed
      cases aside
      exact ⟨rfl,convertFile_error_iff.mp failed⟩
  · rintro ⟨rfl,stumbles⟩
    rw [convertFile_error_iff.mpr stumbles]

theorem runFiles_turns (progress : Progress) (plain : ∀ path ∈ paths, path.holdsNul = false) :
    (job.runFiles progress paths).aborted = none ∧
      (job.runFiles progress paths).progress.results =
        progress.results ++ (job.turns progress.disk paths).filterMap job.done? ∧
      (job.runFiles progress paths).progress.failures =
        progress.failures ++ (job.turns progress.disk paths).filterMap job.aside? := by
  induction paths generalizing progress with
  | nil =>
    simp only [turns,List.filterMap_nil,List.append_nil]
    exact ⟨rfl,rfl,rfl⟩
  | cons path paths ih =>
    obtain ⟨clean,rest⟩ := List.forall_mem_cons.mp plain
    rw [turns]
    cases answers : (job.convertFile progress.disk path).result with
    | ok result =>
      have done : job.done? (progress.disk,path) = some result := by rw [done?,answers]
      have aside : job.aside? (progress.disk,path) = none := by rw [aside?,answers]
      obtain ⟨records,ran⟩ := runFiles_done paths answers
      obtain ⟨whole,results,failures⟩ := ih ⟨(job.convertFile progress.disk path).disk,records,
        progress.results ++ [result],progress.failures⟩ rest
      rw [ran,List.filterMap_cons_some done,List.filterMap_cons_none aside]
      refine ⟨whole,?_,failures⟩
      rw [results,List.append_assoc,List.singleton_append]
    | error trouble =>
      have done : job.done? (progress.disk,path) = none := by rw [done?,answers]
      have aside : job.aside? (progress.disk,path) = some (path,trouble) := by rw [aside?,answers]
      have one := (convertFile_error_iff.mp answers).aside clean
      obtain ⟨records,ran⟩ := runFiles_aside paths answers one
      obtain ⟨whole,results,failures⟩ := ih ⟨(job.convertFile progress.disk path).disk,records,
        progress.results,progress.failures ++ [(path,trouble)]⟩ rest
      rw [ran,List.filterMap_cons_none done,List.filterMap_cons_some aside]
      refine ⟨whole,results,?_⟩
      rw [failures,List.append_assoc,List.singleton_append]

theorem turns_paths (job : Job) (disk : Disk) (paths : List Path) :
    (job.turns disk paths).map Prod.snd = paths := by
  induction paths generalizing disk with
  | nil => rfl
  | cons path paths ih => rw [turns,List.map_cons,ih]

theorem heads_paths (job : Job) (turns : List (Disk × Path)) :
    (turns.filterMap job.done?).map FileResult.path =
        (turns.filter fun turn => (job.done? turn).isSome).map Prod.snd ∧
      (turns.filterMap job.aside?).map Prod.fst =
        (turns.filter fun turn => !(job.done? turn).isSome).map Prod.snd := by
  induction turns with
  | nil => exact ⟨rfl,rfl⟩
  | cons turn turns ih =>
    obtain ⟨results,failures⟩ := ih
    cases answers : (job.convertFile turn.1 turn.2).result with
    | ok result =>
      have done : job.done? turn = some result := by rw [done?,answers]
      have aside : job.aside? turn = none := by rw [aside?,answers]
      rw [List.filterMap_cons_some done,List.filterMap_cons_none aside,
        List.filter_cons_of_pos (by simp [done]),List.filter_cons_of_neg (by simp [done]),
        List.map_cons,List.map_cons,results,failures,done?_some done]
      exact ⟨rfl,rfl⟩
    | error trouble =>
      have done : job.done? turn = none := by rw [done?,answers]
      have aside : job.aside? turn = some (turn.2,trouble) := by rw [aside?,answers]
      rw [List.filterMap_cons_none done,List.filterMap_cons_some aside,
        List.filter_cons_of_neg (by simp [done]),List.filter_cons_of_pos (by simp [done]),
        List.map_cons,List.map_cons,results,failures]
      exact ⟨rfl,rfl⟩

theorem files_recorded (job : Job) (disk : Disk) (plain : ∀ path ∈ paths, path.holdsNul = false) :
    ∃ progress, job.runFiles ⟨disk,[],[],[]⟩ paths = ⟨progress,none⟩ ∧
      job.Recorded disk paths progress := by
  obtain ⟨whole,results,failures⟩ := job.runFiles_turns ⟨disk,[],[],[]⟩ plain
  obtain ⟨done,aside⟩ := job.heads_paths (job.turns disk paths)
  have all := job.turns_paths disk paths
  generalize job.runFiles ⟨disk,[],[],[]⟩ paths = outcome at whole results failures
  obtain ⟨progress,aborted⟩ := outcome
  dsimp only at whole results failures
  subst whole
  rw [List.nil_append] at results failures
  refine ⟨progress,rfl,?_,?_,?_,?_⟩
  · have perm := (List.filter_append_perm (fun turn => (job.done? turn).isSome)
      (job.turns disk paths)).map Prod.snd
    rw [all,List.map_append,← done,← aside,← results,← failures] at perm
    exact perm
  · have inOrder := (List.filter_sublist (p := fun turn => (job.done? turn).isSome)
      (l := job.turns disk paths)).map Prod.snd
    rw [all,← done,← results] at inOrder
    exact inOrder
  · have inOrder := (List.filter_sublist (p := fun turn => !(job.done? turn).isSome)
      (l := job.turns disk paths)).map Prod.snd
    rw [all,← aside,← failures] at inOrder
    exact inOrder
  · intro path trouble
    rw [failures,List.mem_filterMap]
    constructor
    · rintro ⟨⟨now,other⟩,turn,answer⟩
      obtain ⟨rfl,stumbles⟩ := aside?_eq_some_iff.mp answer
      exact ⟨now,turn,stumbles⟩
    · rintro ⟨now,turn,stumbles⟩
      exact ⟨(now,path),turn,aside?_eq_some_iff.mpr ⟨rfl,stumbles⟩⟩

theorem run_recorded (job : Job) (sound : disk.Sound) (plain : path.holdsNul = false)
    (listable : disk.Listable path) : ∃ paths progress, disk.discover path = .ok paths ∧
      job.run disk path = ⟨progress,none⟩ ∧ job.Recorded disk paths progress := by
  have listed : ∃ paths, disk.discover path = .ok paths := by
    rcases sound.discover_listable plain listable with alone | ⟨folder,_,below⟩
    · exact ⟨_,alone⟩
    · exact ⟨_,below⟩
  obtain ⟨paths,discovered⟩ := listed
  obtain ⟨progress,ran,recorded⟩ :=
    job.files_recorded disk (sound.plain_listed plain listable discovered)
  refine ⟨paths,progress,discovered,?_,recorded⟩
  rw [run,discovered]
  exact ran

theorem run_unlistable (job : Job) (sound : disk.Sound) (plain : path.holdsNul = false)
    (unlistable : ¬ disk.Listable path) : ∃ entry,
      job.run disk path = ⟨⟨disk,[],[],[]⟩,some (.access .nameTooLong entry)⟩ := by
  obtain ⟨entry,discovered⟩ := sound.discover_unlistable plain unlistable
  exact ⟨entry,by rw [run,discovered]⟩

end Plainmark.Job

namespace Plainmark.Command
open Text
variable {session : Session} {path : Text} {root : Option Text} {verbosity : Nat}
  {settings : Settings}

structure Reported (outcome : Outcome) (failures : List (Path × Trouble)) : Prop where
  ended : outcome.crash = none
  warned : ∃ log : List Record, outcome.errors =
    log.map .inl ++ failures.map (fun failure => .inr (warning failure))
  status : failures ≠ [] → outcome.status = 1

theorem finished_reported (settings : Settings) (verbosity : Nat) (task : Task)
    (progress : Progress) : Reported (finished settings verbosity task progress) progress.failures := by
  refine ⟨rfl,⟨_,rfl⟩,?_⟩
  intro some
  have bad : failed progress = true := by
    rw [failed]
    simpa using some
  rw [finished,isBad_of_failed bad]
  rfl

theorem run_stopped (task : Task)
    (configured : Configuration.load session.disk session.environment (rootOverride root) =
      .ok settings)
    (plain : (Path.ofText path).holdsNul = false) {cause : Trouble}
    (ran : (Job.onDisk settings (task == .fix) session.tag).run session.disk (Path.ofText path) =
      ⟨⟨session.disk,[],[],[]⟩,some cause⟩) :
    run session (.batch task path root verbosity) =
      ⟨session.disk,[],[],1,some (.trouble cause)⟩ := by
  rw [run_batch task plain]
  unfold runBatch
  rw [settle_ok configured]
  dsimp only
  rw [ran]
  rfl

-- A batch answers for every file with a result or a recorded failure exactly when
-- its path can be listed: a file that cannot be looked up, read, decoded or
-- written is warned of, and the status tells it. Where a spelling or a name is too
-- long for the listing, the batch breaks off before any file has its turn.
theorem failures_recorded_iff (session : Session) (task : Task) (path : Text)
    (root : Option Text) (verbosity : Nat) (settings : Settings) (sound : session.disk.Sound)
    (configured : Configuration.load session.disk session.environment (rootOverride root) =
      .ok settings)
    (plain : '\x00' ∉ path) :
    let job := Job.onDisk settings (task == .fix) session.tag
    let outcome := run session (.batch task path root verbosity)
    ((job.run session.disk (Path.ofText path)).aborted = none ↔
      session.disk.Listable (Path.ofText path)) ∧
    (session.disk.Listable (Path.ofText path) → ∃ paths progress,
      session.disk.discover (Path.ofText path) = .ok paths ∧
        ((∀ folder, session.disk.find (Path.ofText path) ≠ .ok (folder,.folder)) →
          paths = [Path.ofText path]) ∧
          job.run session.disk (Path.ofText path) = ⟨progress,none⟩ ∧
            job.Recorded session.disk paths progress ∧ Reported outcome progress.failures) ∧
    (¬ session.disk.Listable (Path.ofText path) → ∃ entry,
      job.run session.disk (Path.ofText path) =
        ⟨⟨session.disk,[],[],[]⟩,some (.access .nameTooLong entry)⟩ ∧
          outcome = ⟨session.disk,[],[],1,some (.trouble (.access .nameTooLong entry))⟩) := by
  intro job outcome
  have clean := Path.plain_ofText plain
  refine ⟨⟨?_,?_⟩,?_,?_⟩
  · intro whole
    by_contra unlistable
    obtain ⟨entry,ran⟩ := job.run_unlistable sound clean unlistable
    rw [ran] at whole
    cases whole
  · intro listable
    obtain ⟨_,_,_,ran,_⟩ := job.run_recorded sound clean listable
    rw [ran]
  · intro listable
    obtain ⟨paths,progress,discovered,ran,recorded⟩ := job.run_recorded sound clean listable
    have reported : Reported outcome progress.failures := by
      change Reported (run session (.batch task path root verbosity)) progress.failures
      rw [run_finished task configured clean ran]
      exact finished_reported settings verbosity task progress
    refine ⟨paths,progress,discovered,?_,ran,recorded,reported⟩
    intro other
    rcases sound.discover_listable clean listable with alone | ⟨folder,found,_⟩
    · exact Except.ok.inj (discovered.symm.trans alone)
    · exact absurd found (other folder)
  · intro unlistable
    obtain ⟨entry,ran⟩ := job.run_unlistable sound clean unlistable
    exact ⟨entry,ran,run_stopped task configured clean ran⟩

def missingPage : Text := "pages/none.md".toList

theorem missing_page_recorded :
    pagesSession.disk.Sound ∧
      Configuration.load pagesSession.disk pagesSession.environment (rootOverride none) = .ok {} ∧
        '\x00' ∉ missingPage ∧ ∃ paths progress,
          pagesSession.disk.discover (Path.ofText missingPage) = .ok paths ∧
            (Job.onDisk {} false pagesSession.tag).run pagesSession.disk (Path.ofText missingPage) =
              ⟨progress,none⟩ ∧
            (Job.onDisk {} false pagesSession.tag).Recorded pagesSession.disk paths progress ∧
              Reported (run pagesSession (.batch .check missingPage none 0)) progress.failures := by
  have sound : pagesSession.disk.Sound := by decide +kernel
  have configured : Configuration.load pagesSession.disk pagesSession.environment
      (rootOverride none) = .ok {} := rfl
  have plain : '\x00' ∉ missingPage := by decide
  obtain ⟨whole,answered,_⟩ :=
    failures_recorded_iff pagesSession .check missingPage none 0 {} sound configured plain
  have listable := whole.mp (by decide +kernel)
  obtain ⟨paths,progress,discovered,_,ran,recorded,reported⟩ := answered listable
  exact ⟨sound,configured,plain,paths,progress,discovered,ran,recorded,reported⟩

def longName : Text := List.replicate 256 'a'

def emptySession : Session := ⟨⟨[],[]⟩,fun _ => none,Job.pagesTag⟩

theorem long_name_not_recorded : emptySession.disk.Sound ∧ '\x00' ∉ longName ∧
    Configuration.load emptySession.disk emptySession.environment (rootOverride none) = .ok {} ∧
      ((Job.onDisk {} false emptySession.tag).run emptySession.disk (Path.ofText longName)).aborted =
        some (.access .nameTooLong (Path.ofText longName)) ∧
      ((Job.onDisk {} false emptySession.tag).run emptySession.disk
        (Path.ofText longName)).progress.failures = [] ∧
      ∀ task ∈ [Task.fix,Task.check,Task.diff],
        (run emptySession (.batch task longName none 0)).errors = [] ∧
          (run emptySession (.batch task longName none 0)).crash =
            some (.trouble (.access .nameTooLong (Path.ofText longName))) := by
  have configured : Configuration.load emptySession.disk emptySession.environment
      (rootOverride none) = .ok {} := rfl
  refine ⟨?_,?_,configured,?_⟩
  · decide +kernel
  · decide +kernel
  · decide +kernel

end Plainmark.Command
