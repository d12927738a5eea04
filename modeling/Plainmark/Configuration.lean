import Plainmark.Disk
import Plainmark.Settings.Layers
import Plainmark.Yaml.Document

namespace Plainmark

-- Why there is no configuration. The first four concern what a source says and
-- are told to the user; the others are not expected.
inductive ConfigurationFault where
  | document (fault : Yaml.Fault)
  | notMapping (kind : Yaml.Kind)
  | undecodable (fault : Text.Utf8.Fault)
  | complaints (all : List (Field × Complaint))
  | keyNotText
  | reading (trouble : Trouble)
deriving DecidableEq

end Plainmark

namespace Plainmark.Yaml.Fault
open Text

def message : Fault → Option Text
  | .malformed => none
  | .emptyNumber base =>
    some ("invalid literal for int() with base ".toList ++ decimal base ++ ": ''".toList)
  | .yearRange year => some ("year ".toList ++ decimal year ++ " is out of range".toList)
  | .monthRange => some "month must be in 1..12".toList
  | .dayRange => some "day is out of range for month".toList
  | .hourRange => some "hour must be in 0..23".toList
  | .minuteRange => some "minute must be in 0..59".toList
  | .secondRange => some "second must be in 0..59".toList

end Plainmark.Yaml.Fault

namespace Plainmark.ConfigurationFault
open Text

def fileName : Text := "config.yaml".toList

def invalid : Text := "Invalid ".toList ++ fileName

def message : ConfigurationFault → Text
  | .document fault => fault.message.getD invalid
  | .notMapping kind => invalid ++ ": expected a mapping, got ".toList ++ kind.name
  | .undecodable fault => fault.message
  | .complaints all =>
    decimal all.length ++ (if all.length = 1 then " validation error".toList else " validation errors".toList) ++
      " for Settings".toList
  | .keyNotText => "keywords must be strings".toList
  | .reading trouble => trouble.message

def ofSource : ConfigurationFault → Bool
  | .keyNotText => false
  | .reading _ => false
  | _ => true

end Plainmark.ConfigurationFault

namespace Plainmark.Configuration
open Text

abbrev Reader := Text → Except Yaml.Fault Yaml.Value

def given : Yaml.Value → Given
  | .scalar (.text value) => .text value
  | .scalar (.bytes value) => .bytes value
  | .scalar .null => .absent
  | value => .other value.kind.name

def assign (done : Assignment × Bool) (entry : Yaml.Value × Yaml.Value) : Assignment × Bool :=
  match entry.1 with
  | .scalar (.text key) => (done.1.set key (given entry.2),done.2)
  | _ => (done.1,false)

def assigned (entries : List (Yaml.Value × Yaml.Value)) : Assignment × Bool :=
  entries.foldl assign ([],true)

def ofDocumentBy (parse : Reader) (text : Text) : Except ConfigurationFault (Assignment × Bool) :=
  match parse text with
  | .error fault => .error (.document fault)
  | .ok value =>
    if value.isVoid then .ok ([],true)
    else
      match value with
      | .mapping entries => .ok (assigned entries)
      | other => .error (.notMapping other.kind)

def readDocumentBy (parse : Reader) (disk : Disk) :
    Except ConfigurationFault (Assignment × Bool) :=
  let path := Path.ofText ConfigurationFault.fileName
  match Disk.settle (disk.find path) with
  | .error trouble => .error (.reading trouble)
  | .ok none => .ok ([],true)
  | .ok (some _) =>
    match disk.readText path with
    | .ok text => ofDocumentBy parse text
    | .error (.undecodable fault) => .error (.undecodable fault)
    | .error trouble => .error (.reading trouble)

-- Settings from every source. A key that is no text spoils them all, and is
-- found only after the document has been read.
def loadBy (parse : Reader) (coerce : Coercion) (disk : Disk) (environment : Text → Option Text)
    (overrides : Assignment) : Except ConfigurationFault Settings := do
  let (document,allText) ← readDocumentBy parse disk
  if !allText then .error .keyNotText
  else
    match Settings.ofAssignmentBy coerce (Layers.merged ⟨document,environment,overrides⟩) with
    | .ok settings => .ok settings
    | .error complaints => .error (.complaints complaints)

def load (disk : Disk) (environment : Text → Option Text) (overrides : Assignment) :
    Except ConfigurationFault Settings :=
  loadBy Yaml.Document.read Given.asText disk environment overrides

end Plainmark.Configuration
