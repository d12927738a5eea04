import Plainmark.Proofs.Failures
import Plainmark.Proofs.Seams

namespace Plainmark.Patch
open Text Diff

def label? (mark entry : Text) : Option Text :=
  (after? mark entry).bind fun rest =>
    if rest.getLast? = some '\n' then some rest.dropLast else none

inductive Stand where
  | outside
  | named (label : Text)
  | inside (label : Text) (work : Work)

structure Reader where
  files : List (Text × List Text)
  stand : Stand

namespace Reader

def close? (reader : Reader) : Option (List (Text × List Text)) :=
  match reader.stand with
  | .outside => some reader.files
  | .named _ => none
  | .inside label work => work.close?.map fun made => reader.files ++ [(label,made)]

-- A name begins the next file when the one before is complete. Its lines are those
-- that the source has under this name.
def step? (source : Text → Option (List Text)) (reader : Reader) (entry : Text) : Option Reader :=
  match reader.close?,label? "--- a/".toList entry with
  | some files,some label => some ⟨files,.named label⟩
  | _,_ =>
    match reader.stand with
    | .outside => none
    | .named label =>
      if entry = newName label then
        (source label).map fun lines => ⟨reader.files,.inside label (.begin lines)⟩
      else none
    | .inside label work =>
      (work.step? entry).map fun work => ⟨reader.files,.inside label work⟩

def run? (source : Text → Option (List Text)) (reader : Reader) (entries : List Text) :
    Option Reader :=
  entries.foldlM (step? source) reader

end Reader

def patchedFiles? (source : Text → Option (List Text)) (entries : List Text) :
    Option (List (Text × List Text)) :=
  (Reader.run? source ⟨[],.outside⟩ entries).bind Reader.close?

variable {source : Text → Option (List Text)} {files : List (Text × List Text)} {label : Text}
  {work done : Work} {lines : List Text}

theorem label?_oldName (label : Text) : label? "--- a/".toList (oldName label) = some label := by
  have shape : oldName label = "--- a/".toList ++ (label ++ ['\n']) := List.append_assoc _ _ _
  rw [shape,label?,after?_append,Option.bind_some,if_pos List.getLast?_concat,
    List.dropLast_concat]

namespace Reader

theorem run?_append (reader : Reader) (first second : List Text) :
    reader.run? source (first ++ second) =
      (reader.run? source first).bind fun reader => reader.run? source second :=
  List.foldlM_append

theorem run?_cons {reader next after : Reader} {entry : Text} {entries : List Text}
    (stepped : reader.step? source entry = some next)
    (ran : next.run? source entries = some after) :
    reader.run? source (entry :: entries) = some after := by
  rw [run?,List.foldlM_cons,stepped]
  exact ran

theorem step?_inside {entry : Text} (stepped : work.step? entry = some done) :
    step? source ⟨files,.inside label work⟩ entry = some ⟨files,.inside label done⟩ := by
  have unnamed : close? ⟨files,.inside label work⟩ = none ∨
      label? "--- a/".toList entry = none := by
    by_cases complete : work.oldDue = 0 ∧ work.newDue = 0
    · right
      cases named : label? "--- a/".toList entry with
      | none => rfl
      | some next =>
        obtain ⟨rest,read,_⟩ := Option.bind_eq_some_iff.mp named
        rw [after?_canonical read] at stepped
        -- A line to take out cannot be due any more.
        have taken : work.pass? ("-- a/".toList ++ rest) = some done := stepped
        rw [Work.pass?,complete.1] at taken
        cases ahead : work.ahead <;> rw [ahead] at taken <;> cases taken
    · left
      simp only [close?,Work.close?,if_neg complete,Option.map_none]
  unfold step?
  rcases unnamed with undone | unnamed
  · rw [undone]
    simp [stepped]
  · rw [unnamed]
    cases close? ⟨files,.inside label work⟩ <;> simp [stepped]

theorem run?_inside {entries : List Text} (ran : work.run? entries = some done) :
    run? source ⟨files,.inside label work⟩ entries = some ⟨files,.inside label done⟩ := by
  induction entries generalizing work with
  | nil =>
    obtain rfl := Option.some.inj ran
    rfl
  | cons entry entries ih =>
    obtain ⟨next,stepped,onward⟩ := Option.bind_eq_some_iff.mp ran
    exact run?_cons (step?_inside stepped) (ih onward)

theorem run?_unified {reader : Reader} {old new : Text} (context : Nat) (differ : old ≠ new)
    (complete : reader.close? = some files) (found : source label = some (Patch.lines old)) :
    ∃ after, reader.run? source (unified old new label context) = some after ∧
      after.close? = some (files ++ [(label,Patch.lines new)]) := by
  obtain ⟨last,ran,closed⟩ := Option.bind_eq_some_iff.mp (hunks_apply old new context)
  refine ⟨⟨files,.inside label last⟩,?_,by simp [close?,closed]⟩
  have first : reader.step? source (oldName label) = some ⟨files,.named label⟩ := by
    rw [step?,complete,label?_oldName]
  have second : step? source ⟨files,.named label⟩ (newName label) =
      some ⟨files,.inside label (.begin (Patch.lines old))⟩ := by
    simp [step?,close?,found]
  rw [unified_eq,if_neg differ]
  exact run?_cons first (run?_cons second (run?_inside ran))

end Reader

end Plainmark.Patch

namespace Plainmark.Path
open Text

theorem anchorOf_anchored {text : Text} (apart : text.head? ≠ some '/') (anchor : Anchor) :
    anchorOf (anchorText anchor ++ text) = anchor := by
  cases anchor with
  | relative => exact anchorOf_relative apart
  | root =>
    cases text with
    | nil => rfl
    | cons c text =>
      have other : c ≠ '/' := fun same => apart (congrArg some same)
      simp [anchorOf,anchorText,other]
  | doubleRoot =>
    cases text with
    | nil => rfl
    | cons c text =>
      have other : c ≠ '/' := fun same => apart (congrArg some same)
      simp [anchorOf,anchorText,other]

theorem namesOf_anchored (anchor : Anchor) (text : Text) :
    namesOf (anchorText anchor ++ text) = namesOf text := by
  cases anchor with
  | relative => rfl
  | root => exact namesOf_append [] text
  | doubleRoot => exact (namesOf_append [] ('/' :: text)).trans (namesOf_append [] text)

theorem ofText_text {path : Path} (plain : ∀ name ∈ path.names, Plain name) :
    ofText path.text = path := by
  obtain ⟨anchor,names⟩ := path
  have apart : (joinWith ['/'] names).head? ≠ some '/' := by
    cases names with
    | nil => simp [joinWith]
    | cons name names =>
      obtain ⟨filled,_,whole⟩ := plain name List.mem_cons_self
      obtain ⟨c,rest,rfl⟩ := List.exists_cons_of_ne_nil filled
      have other : c ≠ '/' := fun same => whole (by rw [same]; exact List.mem_cons_self)
      cases names <;> simpa [joinWith] using other
  have whole : ofText (anchorText anchor ++ joinWith ['/'] names) = ⟨anchor,names⟩ := by
    rw [ofText,anchorOf_anchored apart,namesOf_anchored,namesOf_joinWith plain]
  unfold Path.text
  split
  · rename_i relative none
    cases relative
    cases none
    rfl
  · exact whole

end Plainmark.Path

namespace Plainmark.Disk

def linesAt (disk : Disk) (label : Text) : Option (List Text) :=
  match disk.readText (Path.ofText label) with
  | .ok text => some (Patch.lines text)
  | .error _ => none

variable {disk : Disk} {path : Path} {paths : List Path}

theorem Sound.ofText_listed (sound : disk.Sound) {text : Text}
    (discovered : disk.discover (Path.ofText text) = .ok paths) :
    ∀ listed ∈ paths, Path.ofText listed.text = listed := by
  have given : ∀ name ∈ (Path.ofText text).names, Path.Plain name :=
    fun name member => Path.plain_of_mem_namesOf member
  have alone : disk.discover (Path.ofText text) = .ok [Path.ofText text] →
      ∀ listed ∈ paths, Path.ofText listed.text = listed := by
    intro single listed member
    obtain rfl := Except.ok.inj (discovered.symm.trans single)
    rw [List.mem_singleton.mp member]
    exact Path.ofText_text given
  cases found : disk.find (Path.ofText text) with
  | error trouble =>
    have unfound := discover_unfound found
    cases settles : settle (.error trouble : Except Trouble Unit) with
    | error other =>
      rw [unfound,settles] at discovered
      cases discovered
    | ok answer =>
      rw [settles] at unfound
      exact alone unfound
  | ok there =>
    obtain ⟨folder,entry⟩ := there
    cases entry with
    | file bytes mode => exact alone (discover_file found)
    | folder =>
      rw [discover_eq found] at discovered
      split at discovered
      · cases discovered
      · obtain rfl := Except.ok.inj discovered
        intro listed member
        obtain ⟨names,inner,rfl⟩ := List.mem_map.mp member
        obtain ⟨_,bytes,mode,stands⟩ := mem_documentsBelow sound (List.mem_mergeSort.mp inner)
        refine Path.ofText_text fun name inside => ?_
        rcases List.mem_append.mp inside with above | below
        · exact given name above
        · have named := sound.named stands name (List.mem_append_right _ below)
          exact ⟨named.filled,named.other.1,named.whole⟩

end Plainmark.Disk

namespace Plainmark.Command
open Text Line Diff

def printed (session : Session) (path : Text) (root : Option Text) : List FileResult :=
  match Configuration.load session.disk session.environment (rootOverride root),
    session.disk.discover (Path.ofText path) with
  | .ok settings,.ok paths => (Job.onDisk settings false session.tag).pending session.disk paths
  | _,_ => []

-- No file's last line runs into the lines put in its place, and none but the last
-- file ends with a line that runs into the next file.
def Separate (results : List FileResult) : Prop :=
  (∀ result ∈ results, ¬ Glued result.before result.after) ∧
    results.Pairwise fun result _ => ¬ OpenEnd contextLines result.before result.after

variable {session : Session} {path : Text} {root : Option Text} {verbosity : Nat}
  {results : List FileResult}

theorem changed_iff (result : FileResult) :
    result.changed = true ↔ result.before ≠ result.after := by
  simp [FileResult.changed]

theorem printed_found (sound : session.disk.Sound) {result : FileResult}
    (member : result ∈ printed session path root) : result.before ≠ result.after ∧
      session.disk.linesAt result.path.text = some (Patch.lines result.before) := by
  unfold printed at member
  split at member
  · rename_i settings paths configured discovered
    obtain ⟨listed,changed⟩ := List.mem_filter.mp member
    obtain ⟨file,inside,foresees⟩ := List.mem_filterMap.mp listed
    refine ⟨(changed_iff result).mp changed,?_⟩
    unfold Job.foreseen? at foresees
    split at foresees
    · cases foresees
    · rename_i before read
      obtain rfl := Option.some.inj foresees
      unfold Disk.linesAt
      rw [sound.ofText_listed discovered file inside,read]
  · cases member

theorem printed_nul (nul : (Path.ofText path).holdsNul = true) : printed session path root = [] := by
  have found : session.disk.find (Path.ofText path) = .error .nul := by
    rw [Disk.find,if_pos nul]
  have unread : session.disk.readText (Path.ofText path) = .error .nul := by
    rw [Disk.readText,Disk.read,found]
    rfl
  have listed : session.disk.discover (Path.ofText path) = .ok [Path.ofText path] :=
    Disk.discover_unfound found
  unfold printed
  rw [listed]
  cases Configuration.load session.disk session.environment (rootOverride root) with
  | error fault => rfl
  | ok settings =>
    have nothing : (Job.onDisk settings false session.tag).foreseen? session.disk
        (Path.ofText path) = none := by
      rw [Job.foreseen?,unread]
    simp [Job.pending,nothing]

theorem printed_begun (sound : session.disk.Sound) (path : Text) (root : Option Text) :
    ∀ entry ∈ (printed session path root).flatMap resultDiff, Begun entry := by
  intro entry member
  obtain ⟨result,listed,inside⟩ := List.mem_flatMap.mp member
  exact unified_begun (printed_found sound listed).1 entry inside

theorem finished_diff {settings : Settings} {job : Job} {disk : Disk} {paths : List Path}
    {progress : Progress} (results : progress.results = paths.filterMap (job.foreseen? disk)) :
    (finished settings verbosity .diff progress).output =
      ((job.pending disk paths).flatMap resultDiff).flatten := by
  have shown : Command.pending progress = job.pending disk paths := by
    rw [Command.pending,results]
    rfl
  have told : diffReport progress = ((job.pending disk paths).flatMap resultDiff).flatten := by
    rw [diffReport,shown]
    simp only [List.flatMap_def,List.flatten_flatten,List.map_map]
    rfl
  dsimp only [finished,report]
  split
  · rename_i none
    rw [← told,diffReport,Command.pending,
      List.isEmpty_iff.mp (Bool.and_eq_true_iff.mp none).2]
    rfl
  · exact told

theorem output_printed (sound : session.disk.Sound) :
    (run session (.batch .diff path root verbosity)).output =
      ((printed session path root).flatMap resultDiff).flatten := by
  cases nul : (Path.ofText path).holdsNul with
  | true =>
    rw [printed_nul nul]
    rw [Path.holdsNul_ofText] at nul
    rw [run,pathOf,nul]
    rfl
  | false =>
    unfold printed
    cases configured : Configuration.load session.disk session.environment (rootOverride root) with
    | error fault =>
      have stopped : (runBatch session .diff path root verbosity).output = [] := by
        rw [runBatch,settle_failed configured]
        exact told_output session fault
      rw [run_batch .diff nul,stopped]
      cases session.disk.discover (Path.ofText path) <;> rfl
    | ok settings =>
      let job := Job.onDisk settings false session.tag
      by_cases listable : session.disk.Listable (Path.ofText path)
      · obtain ⟨paths,_,discovered,_⟩ := job.run_recorded sound nul listable
        have reads : job.writes = false := rfl
        obtain ⟨whole,_,results,_⟩ := Job.reading_run reads ⟨session.disk,[],[],[]⟩
          (sound.plain_listed nul listable discovered)
        have ran : job.run session.disk (Path.ofText path) =
            ⟨(job.runFiles ⟨session.disk,[],[],[]⟩ paths).progress,none⟩ := by
          rw [Job.run,discovered,← whole]
        rw [run_finished .diff configured nul ran,discovered]
        exact finished_diff results
      · obtain ⟨entry,discovered⟩ := sound.discover_unlistable nul listable
        have stopped : job.run session.disk (Path.ofText path) =
            ⟨⟨session.disk,[],[],[]⟩,some (.access .nameTooLong entry)⟩ := by
          rw [Job.run,discovered]
        rw [run_stopped .diff configured nul stopped,discovered]
        rfl

theorem resultDiff_ne_nil {result : FileResult} (differ : result.before ≠ result.after) :
    resultDiff result ≠ [] := by
  rw [resultDiff,unified_eq,if_neg differ]
  exact List.cons_ne_nil _ _

theorem parted_results_iff (differ : ∀ result ∈ results, result.before ≠ result.after) :
    Parted (results.flatMap resultDiff) ↔ Separate results := by
  have alone : ∀ result ∈ results,
      (Parted (resultDiff result) ↔ ¬ Glued result.before result.after) :=
    fun result member => parted_unified_iff _ _ (differ result member)
  unfold Parted Separate
  rw [List.pairwise_flatMap]
  constructor
  · rintro ⟨each,across⟩
    refine ⟨fun result member => (alone result member).mp (each result member),?_⟩
    refine across.imp_of_mem fun {one two} inOne inTwo ends => ?_
    obtain ⟨front,last,shape,ending⟩ :=
      unified_last one.path.text (by decide : 0 < contextLines) (differ one inOne)
    obtain ⟨entry,shown⟩ := List.exists_mem_of_ne_nil _ (resultDiff_ne_nil (differ two inTwo))
    exact ending.mp (ends last (by rw [resultDiff,shape]; simp) entry shown)
  · rintro ⟨clean,across⟩
    have each : ∀ result ∈ results, Parted (resultDiff result) := fun result member =>
      (alone result member).mpr (clean result member)
    refine ⟨each,across.imp_of_mem fun {one two} inOne _ closed => ?_⟩
    obtain ⟨front,last,shape,ending⟩ :=
      unified_last one.path.text (by decide : 0 < contextLines) (differ one inOne)
    have parted := each one inOne
    rw [resultDiff,shape] at parted
    intro entry member _ _
    rw [resultDiff,shape] at member
    rcases List.mem_append.mp member with earlier | here
    · exact (List.pairwise_append.mp parted).2.2 entry earlier last (List.mem_singleton_self last)
    · rw [List.mem_singleton.mp here]
      exact ending.mpr closed

theorem patchedFiles?_results {source : Text → Option (List Text)}
    (differ : ∀ result ∈ results, result.before ≠ result.after)
    (found : ∀ result ∈ results, source result.path.text = some (Patch.lines result.before)) :
    Patch.patchedFiles? source (results.flatMap resultDiff) =
      some (results.map fun result => (result.path.text,Patch.lines result.after)) := by
  have onward : ∀ (reader : Patch.Reader) (files : List (Text × List Text)),
      reader.close? = some files →
      (reader.run? source (results.flatMap resultDiff)).bind Patch.Reader.close? =
        some (files ++ results.map fun result => (result.path.text,Patch.lines result.after)) := by
    induction results with
    | nil =>
      intro reader files complete
      rw [List.map_nil,List.append_nil]
      exact complete
    | cons result results ih =>
      intro reader files complete
      obtain ⟨after,ran,closed⟩ := Patch.Reader.run?_unified contextLines
        (differ result List.mem_cons_self) complete (found result List.mem_cons_self)
      rw [List.flatMap_cons,Patch.Reader.run?_append,resultDiff,ran,Option.bind_some,
        ih (fun other member => differ other (List.mem_cons_of_mem _ member))
          (fun other member => found other (List.mem_cons_of_mem _ member)) after _ closed,
        List.map_cons,List.append_assoc,List.singleton_append]
  exact onward ⟨[],.outside⟩ [] rfl

-- The printed entries of all changed files begin on lines of their own exactly where
-- no last line without a break stands in front of another entry. They are the lines
-- of the output where also no path has a break in it. Taken as they are, they turn
-- every file on the disk that they name into its new text.
theorem printed_entries_separate_iff (session : Session) (path : Text) (root : Option Text)
    (verbosity : Nat) (sound : session.disk.Sound) :
    let results := printed session path root
    let output := (run session (.batch .diff path root verbosity)).output
    output = (results.flatMap resultDiff).flatten ∧
      (EachBegins (results.flatMap resultDiff) ↔ Separate results) ∧
      (Patch.lines output = results.flatMap resultDiff ↔
        Separate results ∧ ∀ result ∈ results, Single (result.path.text ++ ['\n'])) ∧
      Patch.patchedFiles? session.disk.linesAt (results.flatMap resultDiff) =
        some (results.map fun result => (result.path.text,Patch.lines result.after)) := by
  intro results output
  have differ : ∀ result ∈ results, result.before ≠ result.after :=
    fun result member => (printed_found sound member).1
  have begun := printed_begun sound path root
  have written : output = (results.flatMap resultDiff).flatten := output_printed sound
  refine ⟨written,?_,?_,?_⟩
  · rw [eachBegins_iff begun,parted_results_iff differ]
  · rw [written,lines_flatten_iff begun,parted_results_iff differ]
    refine and_congr_right fun _ => ?_
    constructor
    · intro single result member
      refine (unified_single_iff contextLines (differ result member)).mp ?_
      exact fun entry inside => single entry (List.mem_flatMap.mpr ⟨result,member,inside⟩)
    · intro single entry member
      obtain ⟨result,listed,inside⟩ := List.mem_flatMap.mp member
      exact (unified_single_iff contextLines (differ result listed)).mpr (single result listed)
        entry inside
  · exact patchedFiles?_results differ fun result member => (printed_found sound member).2

def noteName : Text := "i.md".toList

def noteSession (note : Text) : Session :=
  ⟨⟨[],[([noteName],.file (Utf8.encode note) 0o644)]⟩,fun _ => none,Job.pagesTag⟩

def openNote : Text := "\x7b\x7bGlossary(\"HTML\")\x7d\x7d".toList

def openLink : Text := "[HTML](https://developer.mozilla.org/en-US/docs/Glossary/HTML)".toList

def closedNote : Text := openNote ++ ['\n']

def closedLink : Text := openLink ++ ['\n']

def noteEntries (note link : Text) : List Text :=
  ["--- a/i.md\n".toList,"+++ b/i.md\n".toList,"@@ -1 +1 @@\n".toList,'-' :: note,'+' :: link]

theorem closed_note_separate : (noteSession closedNote).disk.Sound ∧
    Patch.lines (run (noteSession closedNote) (.batch .diff noteName none 0)).output =
      noteEntries closedNote closedLink ∧
    Separate (printed (noteSession closedNote) noteName none) ∧
    Patch.patchedFiles? (noteSession closedNote).disk.linesAt
      (Patch.lines (run (noteSession closedNote) (.batch .diff noteName none 0)).output) =
        some [(noteName,[closedLink])] := by
  have sound : (noteSession closedNote).disk.Sound := by decide +kernel
  have results : printed (noteSession closedNote) noteName none =
      [⟨Path.ofText noteName,closedNote,closedLink,false⟩] := by decide +kernel
  have entries : resultDiff ⟨Path.ofText noteName,closedNote,closedLink,false⟩ =
      noteEntries closedNote closedLink := by decide +kernel
  obtain ⟨written,_,whole,applied⟩ :=
    printed_entries_separate_iff (noteSession closedNote) noteName none 0 sound
  rw [results,List.flatMap_singleton,entries] at written whole applied
  have read : Patch.lines (run (noteSession closedNote) (.batch .diff noteName none 0)).output =
      noteEntries closedNote closedLink := by
    rw [written]
    decide +kernel
  rw [read,results]
  exact ⟨sound,rfl,(whole.mp read).1,applied⟩

-- Without the last break, the new line is printed on the line of the old one, and
-- the output cannot be applied.
theorem open_note_runs_on : (noteSession openNote).disk.Sound ∧
    (run (noteSession openNote) (.batch .diff noteName none 0)).output =
      "--- a/i.md\n+++ b/i.md\n@@ -1 +1 @@\n".toList ++ '-' :: openNote ++ '+' :: openLink ∧
    ¬ EachBegins ((printed (noteSession openNote) noteName none).flatMap resultDiff) ∧
    Patch.patchedFiles? (noteSession openNote).disk.linesAt
      (Patch.lines (run (noteSession openNote) (.batch .diff noteName none 0)).output) = none := by
  have sound : (noteSession openNote).disk.Sound := by decide +kernel
  have results : printed (noteSession openNote) noteName none =
      [⟨Path.ofText noteName,openNote,openLink,false⟩] := by decide +kernel
  have entries : resultDiff ⟨Path.ofText noteName,openNote,openLink,false⟩ =
      noteEntries openNote openLink := by decide +kernel
  have begun := printed_begun sound noteName none
  rw [output_printed sound]
  rw [results,List.flatMap_singleton,entries] at begun ⊢
  refine ⟨sound,by decide +kernel,?_,by decide +kernel⟩
  rw [eachBegins_iff begun]
  unfold Parted
  decide +kernel

end Plainmark.Command
