import Plainmark.Settings
import Plainmark.Text.Utf8

namespace Plainmark

-- A value as a configuration source gives it. What is neither text nor bytes nor
-- nothing at all goes by a name.
inductive Given where
  | text (value : Text)
  | bytes (value : Text.Bytes)
  | absent
  | other (name : Text)
deriving DecidableEq

inductive Field where
  | appName
  | contentRoot
  | resourcesDir
  | domain
  | locale
  | assetsDir
  | logLevel
deriving DecidableEq

inductive Complaint where
  | notText
  | notUnicode
  | badPattern
deriving DecidableEq

abbrev Coercion := Given → Except Complaint Text

-- Values by key. Keys that are no field are carried along and never read.
abbrev Assignment := List (Text × Given)

structure Layers where
  document : Assignment
  environment : Text → Option Text
  overrides : Assignment

end Plainmark

namespace Plainmark.Field

def all : List Field :=
  [.appName,.contentRoot,.resourcesDir,.domain,.locale,.assetsDir,.logLevel]

def key : Field → Text
  | .appName => "app_name".toList
  | .contentRoot => "content_root".toList
  | .resourcesDir => "resources_dir".toList
  | .domain => "domain".toList
  | .locale => "locale".toList
  | .assetsDir => "assets_dir".toList
  | .logLevel => "log_level".toList

def variableName (field : Field) : Text := "YARIMD_".toList ++ field.key.map Char.toUpper

end Plainmark.Field

namespace Plainmark.Assignment

def set (assignment : Assignment) (key : Text) (value : Given) : Assignment :=
  (key,value) :: assignment.filter fun entry => entry.1 ≠ key

def get? (assignment : Assignment) (key : Text) : Option Given := assignment.lookup key

end Plainmark.Assignment

namespace Plainmark.Layers

def withVariable (environment : Text → Option Text) (assignment : Assignment) (field : Field) :
    Assignment :=
  match environment field.variableName with
  | some value => if value = [] then assignment else assignment.set field.key (.text value)
  | none => assignment

def withOverride (assignment : Assignment) (entry : Text × Given) : Assignment :=
  match entry.2 with
  | .absent => assignment
  | value => assignment.set entry.1 value

def merged (layers : Layers) : Assignment :=
  layers.overrides.foldl withOverride
    (Field.all.foldl (withVariable layers.environment) layers.document)

end Plainmark.Layers

namespace Plainmark.Given
open Text

def asText : Coercion
  | .text value => .ok value
  | .bytes value =>
    match Utf8.decode value with
    | .ok value => .ok value
    | .error _ => .error .notUnicode
  | .absent => .error .notText
  | .other _ => .error .notText

end Plainmark.Given

namespace Plainmark.Settings

def locale? (text : Text) : Except Complaint Locale :=
  if accepted : Locale.accepts text = true then .ok ⟨text,accepted⟩ else .error .badPattern

def level? (text : Text) : Except Complaint Level :=
  match Level.ofName? text with
  | some level => .ok level
  | none => .error .badPattern

def readBy (coerce : Coercion) (parse : Text → Except Complaint α) (given : Option Given)
    (default : α) : Except Complaint α :=
  match given with
  | none => .ok default
  | some value => do parse (← coerce value)

def complaint? (field : Field) : Except Complaint α → Option (Field × Complaint)
  | .ok _ => none
  | .error complaint => some (field,complaint)

def ofAssignmentBy (coerce : Coercion) (assignment : Assignment) :
    Except (List (Field × Complaint)) Settings :=
  let standard : Settings := {}
  let given := fun field : Field => assignment.get? field.key
  let appName := readBy coerce .ok (given .appName) standard.appName
  let contentRoot := readBy coerce .ok (given .contentRoot) standard.contentRoot
  let resourcesDir := readBy coerce .ok (given .resourcesDir) standard.resourcesDir
  let domain := readBy coerce .ok (given .domain) standard.domain
  let locale := readBy coerce locale? (given .locale) standard.locale
  let assetsDir := readBy coerce .ok (given .assetsDir) standard.assetsDir
  let logLevel := readBy coerce level? (given .logLevel) standard.logLevel
  match appName,contentRoot,resourcesDir,domain,locale,assetsDir,logLevel with
  | .ok appName,.ok contentRoot,.ok resourcesDir,.ok domain,.ok locale,.ok assetsDir,.ok logLevel =>
    .ok ⟨appName,contentRoot,resourcesDir,domain,locale,assetsDir,logLevel⟩
  | _,_,_,_,_,_,_ =>
    .error ([complaint? .appName appName,complaint? .contentRoot contentRoot,
      complaint? .resourcesDir resourcesDir,complaint? .domain domain,complaint? .locale locale,
      complaint? .assetsDir assetsDir,complaint? .logLevel logLevel].filterMap id)

def ofAssignment : Assignment → Except (List (Field × Complaint)) Settings :=
  ofAssignmentBy Given.asText

end Plainmark.Settings
