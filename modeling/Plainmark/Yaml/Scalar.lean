import Plainmark.Text.Base64

namespace Plainmark.Yaml

-- Why a document cannot become a value. Everything that breaks the grammar is
-- one case; a number or a date may have the right form and still mean nothing.
inductive Fault where
  | malformed
  | emptyNumber (base : Nat)
  | yearRange (year : Nat)
  | monthRange
  | dayRange
  | hourRange
  | minuteRange
  | secondRange
deriving DecidableEq

-- What a plain scalar stands for. A scalar that takes the form of a value
-- without being one keeps its fault until the value is asked for.
inductive Scalar where
  | null
  | boolean (value : Bool)
  | integer (value : Int)
  | float (zero : Bool)
  | date
  | moment
  | text (value : Text)
  | bytes (value : Text.Bytes)
  | unusable (fault : Fault)
deriving DecidableEq

end Plainmark.Yaml

namespace Plainmark.Yaml.Scalar
open Text

def ofBase64 (text : Text) : Scalar :=
  match Base64.bytes? text with
  | some value => .bytes value
  | none => .unusable .malformed

def truths : List Text :=
  ["yes".toList,"Yes".toList,"YES".toList,"true".toList,"True".toList,"TRUE".toList,
    "on".toList,"On".toList,"ON".toList]

def falsehoods : List Text :=
  ["no".toList,"No".toList,"NO".toList,"false".toList,"False".toList,"FALSE".toList,
    "off".toList,"Off".toList,"OFF".toList]

def nulls : List Text := [[],['~'],"null".toList,"Null".toList,"NULL".toList]

-- Two spellings are set apart for other uses and stand for no value.
def reserved : List Text := [['='],['<','<']]

def unsigned : Text → Text
  | '+' :: body => body
  | '-' :: body => body
  | body => body

def isSpacedDigit (c : Char) : Bool := c.isDigit || c == '_'

def isHexDigit (c : Char) : Bool :=
  c.isDigit || ('a' ≤ c && c ≤ 'f') || ('A' ≤ c && c ≤ 'F')

def digitValue (c : Char) : Nat :=
  if c.isDigit then c.toNat - '0'.toNat
  else if 'a' ≤ c then c.toNat - 'a'.toNat + 10
  else c.toNat - 'A'.toNat + 10

def ofDigits (base : Nat) (digits : Text) : Nat :=
  (digits.filter (· != '_')).foldl (fun value c => value * base + digitValue c) 0

def isSixtieth : Text → Bool
  | [d] => d.isDigit
  | [t,d] => '0' ≤ t && t ≤ '5' && d.isDigit
  | _ => false

def sixtieths (places : List Text) : Nat :=
  places.foldl (fun value place => value * 60 + ofDigits 10 place) 0

def magnitude? (body : Text) : Option (Except Fault Nat) :=
  match body with
  | ['0'] => some (.ok 0)
  | '0' :: 'b' :: digits =>
    if digits ≠ [] ∧ digits.all fun c => c == '0' || c == '1' || c == '_' then
      some (if digits.all (· == '_') then .error (.emptyNumber 2) else .ok (ofDigits 2 digits))
    else none
  | '0' :: 'x' :: digits =>
    if digits ≠ [] ∧ digits.all fun c => isHexDigit c || c == '_' then
      some (if digits.all (· == '_') then .error (.emptyNumber 16) else .ok (ofDigits 16 digits))
    else none
  | '0' :: digits =>
    if digits.all fun c => ('0' ≤ c && c ≤ '7') || c == '_' then some (.ok (ofDigits 8 digits))
    else none
  | c :: _ =>
    match splitAt ':' body with
    | first :: places =>
      if c.isDigit ∧ first.all isSpacedDigit ∧ places.all isSixtieth then
        some (.ok (sixtieths (first :: places)))
      else none
    | [] => none
  | [] => none

def integer? (text : Text) : Option Scalar :=
  (magnitude? (unsigned text)).map fun
    | .ok value => .integer (if text.head? = some '-' then -(value : Int) else value)
    | .error fault => .unusable fault

def isExponent : Text → Bool
  | [] => true
  | e :: s :: digits =>
    (e == 'e' || e == 'E') && (s == '+' || s == '-') && digits ≠ [] && digits.all Char.isDigit
  | _ => false

def startsWithDigit (text : Text) : Bool := text.head?.any Char.isDigit

def allZero (digits : Text) : Bool := digits.all fun c => c == '0' || c == '_' || c == ':'

def float? (text : Text) : Option Bool :=
  let body := unsigned text
  if body ∈ [".inf".toList,".Inf".toList,".INF".toList] then some false
  else if text ∈ [".nan".toList,".NaN".toList,".NAN".toList] then some false
  else
    match closedBy? '.' body with
    | none => none
    | some (whole,rest) =>
      let fraction := rest.takeWhile isSpacedDigit
      let ending := rest.dropWhile isSpacedDigit
      let answer := some (allZero (whole ++ fraction))
      match splitAt ':' whole with
      | [[]] => if text = body ∧ startsWithDigit fraction ∧ isExponent ending then answer else none
      | [_] =>
        if startsWithDigit whole ∧ whole.all isSpacedDigit ∧ isExponent ending then answer else none
      | first :: places =>
        if startsWithDigit first ∧ first.all isSpacedDigit ∧ places.all isSixtieth ∧ ending = [] then
          answer
        else none
      | [] => none

def digits? (least most : Nat) (text : Text) : Option (Nat × Text) :=
  let run := text.takeWhile Char.isDigit
  if least ≤ run.length ∧ run.length ≤ most then
    some (ofDigits 10 run,text.dropWhile Char.isDigit)
  else none

def isLeap (year : Nat) : Bool := year % 4 == 0 && (year % 100 != 0 || year % 400 == 0)

def daysIn (year month : Nat) : Nat :=
  if month = 2 then (if isLeap year then 29 else 28)
  else if month = 4 ∨ month = 6 ∨ month = 9 ∨ month = 11 then 30
  else 31

def dateFault? (year month day : Nat) : Option Fault :=
  if year = 0 then some (.yearRange year)
  else if month = 0 ∨ 12 < month then some .monthRange
  else if day = 0 ∨ daysIn year month < day then some .dayRange
  else none

def timeFault? (hour minute second : Nat) : Option Fault :=
  if 23 < hour then some .hourRange
  else if 59 < minute then some .minuteRange
  else if 59 < second then some .secondRange
  else none

def orFault (fault : Option Fault) (scalar : Scalar) : Scalar :=
  match fault with
  | some fault => .unusable fault
  | none => scalar

def date? (text : Text) : Option Scalar := do
  let (year,rest) ← digits? 4 4 text
  let rest ← after? ['-'] rest
  let (month,rest) ← digits? 2 2 rest
  let rest ← after? ['-'] rest
  let (day,rest) ← digits? 2 2 rest
  if rest = [] then return orFault (dateFault? year month day) .date else none

def isZone (text : Text) : Bool :=
  match text.dropWhile fun c => c == ' ' || c == '\t' with
  | [] => text = []
  | ['Z'] => true
  | s :: rest =>
    (s == '+' || s == '-') &&
      match digits? 1 2 rest with
      | some (_,[]) => true
      | some (_,':' :: minutes) =>
        match digits? 2 2 minutes with
        | some (_,[]) => true
        | _ => false
      | _ => false

def afterDate? : Text → Option Text
  | 'T' :: rest => some rest
  | 't' :: rest => some rest
  | c :: rest =>
    if c = ' ' ∨ c = '\t' then some (rest.dropWhile fun c => c == ' ' || c == '\t') else none
  | [] => none

def afterFraction : Text → Text
  | '.' :: rest => rest.dropWhile Char.isDigit
  | rest => rest

def moment? (text : Text) : Option Scalar := do
  let (year,rest) ← digits? 4 4 text
  let rest ← after? ['-'] rest
  let (month,rest) ← digits? 1 2 rest
  let rest ← after? ['-'] rest
  let (day,rest) ← digits? 1 2 rest
  let rest ← afterDate? rest
  let (hour,rest) ← digits? 1 2 rest
  let rest ← after? [':'] rest
  let (minute,rest) ← digits? 2 2 rest
  let rest ← after? [':'] rest
  let (second,rest) ← digits? 2 2 rest
  if isZone (afterFraction rest) then
    return orFault (dateFault? year month day <|> timeFault? hour minute second) .moment
  else none

def ofPlain (text : Text) : Scalar :=
  if text ∈ nulls then .null
  else if text ∈ truths then .boolean true
  else if text ∈ falsehoods then .boolean false
  else if text ∈ reserved then .unusable .malformed
  else
    match float? text with
    | some zero => .float zero
    | none => (integer? text <|> date? text <|> moment? text).getD (.text text)

end Plainmark.Yaml.Scalar
