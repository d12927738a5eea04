import Plainmark.Batch
import Plainmark.Configuration
import Plainmark.Diff.Unified

namespace Plainmark

inductive Task where
  | fix
  | check
  | diff
deriving DecidableEq

inductive Request where
  | batch (task : Task) (path : Text) (root : Option Text) (verbosity : Nat)
  | resolve (term : Text) (file : Text) (root : Option Text)
deriving DecidableEq

-- Where a command runs: the disk, the environment, and the tag that the system
-- gives to temporary files.
structure Session where
  disk : Disk
  environment : Text → Option Text
  tag : Text

inductive Crash where
  | configuration (fault : ConfigurationFault)
  | trouble (cause : Trouble)
deriving DecidableEq

-- What a command leaves behind. Lines on the error channel are reports of the
-- log, which carry a time, and messages, which do not.
structure Outcome where
  disk : Disk
  output : Text
  errors : List (Record ⊕ Text)
  status : Nat
  crash : Option Crash

end Plainmark

namespace Plainmark.Crash

def message : Crash → Text
  | .configuration fault => fault.message
  | .trouble cause => cause.message

end Plainmark.Crash

namespace Plainmark.Outcome
open Text

def errorText (clock : Text) (outcome : Outcome) : Text :=
  outcome.errors.flatMap fun
    | .inl record => record.line clock
    | .inr message => message

end Plainmark.Outcome

namespace Plainmark.Command
open Text

def threshold (settings : Settings) (verbosity : Nat) : Level :=
  if verbosity = 0 then settings.logLevel else Level.ofVerbosity verbosity

def shownRecords (settings : Settings) (verbosity : Nat) (records : List Record) :
    List (Record ⊕ Text) :=
  (records.filter (Record.shown (threshold settings verbosity))).map .inl

def rootOverride (root : Option Text) : Assignment :=
  match root with
  | some root => [("content_root".toList,.text root)]
  | none => []

def warning (failure : Path × Trouble) : Text :=
  "Warning: could not process ".toList ++ failure.1.text ++ ": ".toList ++ failure.2.message ++ ['\n']

def fixedLine (result : FileResult) : Text :=
  let counts := Diff.counts result.before result.after
  "  fixed: ".toList ++ result.path.text ++ " (+".toList ++ decimal counts.added ++ " -".toList ++
    decimal counts.deleted ++ ")\n".toList

def fixReport (progress : Progress) : Text :=
  let written := progress.results.countP FileResult.written
  (progress.results.filter FileResult.written).flatMap fixedLine ++ "Done - ".toList ++
    decimal written ++ " rewritten, ".toList ++ decimal (progress.results.length - written) ++
    " unchanged, ".toList ++ decimal progress.failures.length ++ " failed\n".toList

def pending (progress : Progress) : List FileResult := progress.results.filter FileResult.changed

def pendingLine (result : FileResult) : Text :=
  "  would fix: ".toList ++ result.path.text ++ ['\n']

def checkReport (progress : Progress) : Text :=
  (pending progress).flatMap pendingLine ++ decimal (pending progress).length ++ " of ".toList ++
    decimal progress.results.length ++ " file(s) would change\n".toList

def contextLines : Nat := 3

def resultDiff (result : FileResult) : List Text :=
  Diff.unified result.before result.after result.path.text contextLines

def diffReport (progress : Progress) : Text :=
  (pending progress).flatMap fun result => (resultDiff result).flatten

def statusOf (bad : Bool) : Nat := if bad then 1 else 0

def failed (progress : Progress) : Bool := !progress.failures.isEmpty

def report : Task → Progress → Text
  | .fix => fixReport
  | .check => checkReport
  | .diff => diffReport

def isBad : Task → Progress → Bool
  | .fix,progress => failed progress
  | .check,progress => !(pending progress).isEmpty || failed progress
  | .diff,progress => failed progress

def told (session : Session) (fault : ConfigurationFault) : Outcome :=
  if fault.ofSource then
    ⟨session.disk,[],[.inr ("Error: ".toList ++ fault.message ++ ['\n'])],1,none⟩
  else ⟨session.disk,[],[],1,some (.configuration fault)⟩

def settle (session : Session) (root : Option Text) : Except Outcome Settings :=
  match Configuration.load session.disk session.environment (rootOverride root) with
  | .ok settings => .ok settings
  | .error fault => .error (told session fault)

-- A batch with its warnings. When every file failed there is nothing to report.
def runBatch (session : Session) (task : Task) (path : Text) (root : Option Text)
    (verbosity : Nat) : Outcome :=
  match settle session root with
  | .error outcome => outcome
  | .ok settings =>
    let job := Job.onDisk settings (task == .fix) session.tag
    let outcome := job.run session.disk (Path.ofText path)
    let progress := outcome.progress
    let log := shownRecords settings verbosity progress.records
    match outcome.aborted with
    | some cause => ⟨progress.disk,[],log,1,some (.trouble cause)⟩
    | none =>
      let errors := log ++ progress.failures.map fun failure => .inr (warning failure)
      if failed progress && progress.results.isEmpty then ⟨progress.disk,[],errors,1,none⟩
      else ⟨progress.disk,report task progress,errors,statusOf (isBad task progress),none⟩

def runResolve (session : Session) (term file : Text) (root : Option Text) : Outcome :=
  match settle session root with
  | .error outcome => outcome
  | .ok settings =>
    let job := Job.onDisk settings false session.tag
    let link := Glossary.target (job.context session.disk (Path.ofText file)) term
    ⟨session.disk,link.text ++ ['\n'],shownRecords settings 0 link.records,0,none⟩

def pathOf : Request → Text
  | .batch _ path _ _ => path
  | .resolve _ file _ => file

-- A request carried out. A path with a NUL is refused before anything else
-- happens.
def run (session : Session) (request : Request) : Outcome :=
  if (pathOf request).contains '\x00' then ⟨session.disk,[],[],1,some (.trouble .nul)⟩
  else
    match request with
    | .batch task path root verbosity => runBatch session task path root verbosity
    | .resolve term file root => runResolve session term file root

end Plainmark.Command
