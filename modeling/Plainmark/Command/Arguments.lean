import Plainmark.Command

namespace Plainmark.Command
open Text

inductive Misuse where
  | noCommand
  | unknownCommand
  | unknownOption
  | missingValue
  | unwantedValue
  | wrongCount
deriving DecidableEq

def Misuse.message : Misuse → Text
  | .noCommand => "Name a command: fix, check, diff or resolve.".toList
  | .unknownCommand => "There is no such command.".toList
  | .unknownOption => "There is no such option.".toList
  | .missingValue => "An option lacks its value.".toList
  | .unwantedValue => "A flag takes no value.".toList
  | .wrongCount => "Give exactly one argument.".toList

inductive Verb where
  | batch (task : Task)
  | resolve
deriving DecidableEq

def Verb.ofName? (name : Text) : Option Verb :=
  if name = "fix".toList then some (.batch .fix)
  else if name = "check".toList then some (.batch .check)
  else if name = "diff".toList then some (.batch .diff)
  else if name = "resolve".toList then some .resolve
  else none

structure Options where
  root : Option Text := none
  file : Option Text := none
  verbosity : Nat := 0
  operands : List Text := []

def setValue? (verb : Verb) (name value : Text) (options : Options) : Option Options :=
  if name = "--root".toList then some { options with root := some value }
  else if name = "--from".toList ∧ verb = .resolve then some { options with file := some value }
  else none

def takesValue (verb : Verb) (name : Text) : Bool :=
  name == "--root".toList || (name == "--from".toList && verb == .resolve)

def isFlag (verb : Verb) (name : Text) : Bool :=
  name == "--verbose".toList && verb != .resolve

def nameAndValue (argument : Text) : Text × Option Text :=
  match closedBy? '=' argument with
  | some (name,value) => (name,some value)
  | none => (argument,none)

def isShortFlags (verb : Verb) (argument : Text) : Bool :=
  match argument with
  | '-' :: letters => letters ≠ [] && letters.all (· == 'v') && verb != .resolve
  | _ => false

def isLong : Text → Bool
  | '-' :: '-' :: _ => true
  | _ => false

def isOperand : Text → Bool
  | '-' :: _ :: _ => false
  | _ => true

-- Options and operands in any order. A value may look like an option, and two
-- dashes end the options.
def readOptions (verb : Verb) (options : Options) : List Text → Except Misuse Options
  | [] => .ok options
  | argument :: rest =>
    if isOperand argument then
      readOptions verb { options with operands := argument :: options.operands } rest
    else if argument = ['-','-'] then
      .ok { options with operands := rest.reverse ++ options.operands }
    else if isShortFlags verb argument then
      readOptions verb { options with verbosity := options.verbosity + (argument.length - 1) } rest
    else if isLong argument then
      match nameAndValue argument with
      | (name,some value) =>
        match setValue? verb name value options with
        | some options => readOptions verb options rest
        | none => .error (if isFlag verb name then .unwantedValue else .unknownOption)
      | (name,none) =>
        if isFlag verb name then
          readOptions verb { options with verbosity := options.verbosity + 1 } rest
        else if takesValue verb name then
          match rest with
          | [] => .error .missingValue
          | value :: rest =>
            match setValue? verb name value options with
            | some options => readOptions verb options rest
            | none => .error .unknownOption
        else .error .unknownOption
    else .error .unknownOption

def request (verb : Verb) (options : Options) : Except Misuse Request :=
  match options.operands with
  | [operand] =>
    .ok (match verb with
      | .batch task => .batch task operand options.root options.verbosity
      | .resolve => .resolve operand (options.file.getD "index.md".toList) options.root)
  | _ => .error .wrongCount

def readCommand : List Text → Except Misuse Request
  | [] => .error .noCommand
  | name :: arguments =>
    match Verb.ofName? name with
    | some verb => do request verb (← readOptions verb {} arguments)
    | none => .error (if isOperand name then .unknownCommand else .unknownOption)

def read (arguments : List Text) : Except Misuse Request :=
  match arguments with
  | ['-','-'] :: rest => readCommand rest
  | _ => readCommand arguments

end Plainmark.Command
