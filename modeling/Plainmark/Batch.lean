import Plainmark.Disk.Discovery
import Plainmark.Disk.Replacement
import Plainmark.Conversion

namespace Plainmark

-- What a batch does apart from its files: the settings, whether it writes, the
-- tag of its temporary files, and the documents at hand. Those may depend on
-- the disk as it stands when a file's turn comes.
structure Job where
  settings : Settings
  writes : Bool
  tag : Text
  shelf : Disk → Shelf

structure FileResult where
  path : Path
  before : Text
  after : Text
  written : Bool
deriving DecidableEq

structure Progress where
  disk : Disk
  records : List Record
  results : List FileResult
  failures : List (Path × Trouble)

structure FileOutcome where
  disk : Disk
  records : List Record
  result : Except Trouble FileResult

structure BatchOutcome where
  progress : Progress
  aborted : Option Trouble

end Plainmark

namespace Plainmark.FileResult

def changed (result : FileResult) : Bool := result.before != result.after

end Plainmark.FileResult

namespace Plainmark.Disk

def shelf (disk : Disk) (folder : Path) : Shelf := fun category name =>
  disk.isFile (Resource.path folder category name)

end Plainmark.Disk

namespace Plainmark.Job

def onDisk (settings : Settings) (writes : Bool) (tag : Text) : Job :=
  ⟨settings,writes,tag,fun disk => disk.shelf settings.resourcesPath⟩

def context (job : Job) (disk : Disk) (path : Path) : Context :=
  ⟨Path.fromRoot disk.here path (Path.ofText job.settings.contentRoot),job.shelf disk,job.settings⟩

def processing (path : Path) : Record :=
  ⟨.info,.file,"Processing ".toList ++ path.text⟩

def skipped (path : Path) (trouble : Trouble) : Record :=
  ⟨.warning,.batch,"Skipped ".toList ++ path.text ++ ": ".toList ++ trouble.message⟩

def convertFile (job : Job) (disk : Disk) (path : Path) : FileOutcome :=
  match disk.readText path with
  | .error trouble => ⟨disk,[processing path],.error trouble⟩
  | .ok before =>
    let converted := Conversion.convert (job.context disk path) before
    let records := processing path :: converted.records
    let result : FileResult := ⟨path,before,converted.text,false⟩
    if job.writes && result.changed then
      match disk.replace job.tag path converted.text with
      | (disk,.ok ()) => ⟨disk,records,.ok ⟨path,before,converted.text,true⟩⟩
      | (disk,.error trouble) => ⟨disk,records,.error trouble⟩
    else ⟨disk,records,.ok result⟩

-- The files of a batch, one after the other. A file that fails is put aside
-- with its trouble, and the next one has its turn.
def runFiles (job : Job) (progress : Progress) : List Path → BatchOutcome
  | [] => ⟨progress,none⟩
  | path :: paths =>
    let outcome := job.convertFile progress.disk path
    let records := progress.records ++ outcome.records
    match outcome.result with
    | .ok result =>
      runFiles job ⟨outcome.disk,records,progress.results ++ [result],progress.failures⟩ paths
    | .error trouble =>
      if trouble.ofOneFile then
        runFiles job ⟨outcome.disk,records ++ [skipped path trouble],progress.results,
          progress.failures ++ [(path,trouble)]⟩ paths
      else ⟨⟨outcome.disk,records,progress.results,progress.failures⟩,some trouble⟩

def run (job : Job) (disk : Disk) (path : Path) : BatchOutcome :=
  let start : Progress := ⟨disk,[],[],[]⟩
  match disk.discover path with
  | .error trouble => ⟨start,some trouble⟩
  | .ok paths => job.runFiles start paths

end Plainmark.Job
