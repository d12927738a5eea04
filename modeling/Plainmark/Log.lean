import Plainmark.Text.Basic

namespace Plainmark

inductive Level where
  | trace
  | debug
  | info
  | success
  | warning
  | error
deriving DecidableEq

inductive Origin where
  | substitution
  | lookup
  | removal
  | file
  | batch
deriving DecidableEq

structure Record where
  level : Level
  origin : Origin
  message : Text
deriving DecidableEq

end Plainmark

namespace Plainmark.Level

def all : List Level := [.trace,.debug,.info,.success,.warning,.error]

def name : Level → Text
  | .trace => "TRACE".toList
  | .debug => "DEBUG".toList
  | .info => "INFO".toList
  | .success => "SUCCESS".toList
  | .warning => "WARNING".toList
  | .error => "ERROR".toList

def ofName? (text : Text) : Option Level := all.find? fun level => level.name = text

def severity : Level → Nat
  | .trace => 5
  | .debug => 10
  | .info => 20
  | .success => 25
  | .warning => 30
  | .error => 40

def ofVerbosity (count : Int) : Level :=
  if count < 0 then .error
  else if count = 0 then .warning
  else if count = 1 then .info
  else .debug

end Plainmark.Level

namespace Plainmark.Origin

def name : Origin → Text
  | .substitution => "substitute".toList
  | .lookup => "resolve_glossary".toList
  | .removal => "_drop".toList
  | .file => "rewrite_file".toList
  | .batch => "run_rewrite".toList

end Plainmark.Origin

namespace Plainmark.Record
open Text

def shown (threshold : Level) (record : Record) : Bool :=
  threshold.severity ≤ record.level.severity

def line (clock : Text) (record : Record) : Text :=
  clock ++ " │ ".toList ++ padRight 7 record.level.name ++ " │ ".toList ++
    padRight 24 record.origin.name ++ " ║ ".toList ++ record.message ++ ['\n']

end Plainmark.Record
