import Plainmark.Yaml.Scalar

namespace Plainmark.Yaml

inductive Node where
  | plain (text : Text)
  | quoted (text : Text)
  | binary (text : Text)
  | sequence (items : List Node)
  | mapping (entries : List (Node × Node))

def Node.empty : Node := .plain []

end Plainmark.Yaml

namespace Plainmark.Yaml.Flow
open Text

def isBreak (c : Char) : Bool :=
  c == '\n' || c == '\x85' || c == '\u2028' || c == '\u2029'

def isGap (c : Char) : Bool := c == ' ' || c == '\t'

def endsWord (next : Option Char) : Bool :=
  match next with
  | none => true
  | some c => isGap c || isBreak c

def breakText (c : Char) : Char := if c == '\u2028' || c == '\u2029' then c else '\n'

def isMarker : Text → Bool
  | '-' :: '-' :: '-' :: rest => endsWord rest.head?
  | '.' :: '.' :: '.' :: rest => endsWord rest.head?
  | _ => false

def folded : List Char → Text
  | [] => []
  | [only] => if only = '\n' then [' '] else [only]
  | first :: more => if first = '\n' then more else first :: more

def quotedBreaks? : Bool → Text → Option (List Char × Text)
  | _,[] => some ([],[])
  | atStart,c :: rest =>
    if atStart && isMarker (c :: rest) then none
    else if isGap c then quotedBreaks? false rest
    else if isBreak c then
      (quotedBreaks? true rest).map fun found => (breakText c :: found.1,found.2)
    else some ([],c :: rest)

def quotedGap? (text : Text) : Option (Text × Text) :=
  let gap := text.takeWhile isGap
  match text.dropWhile isGap with
  | [] => none
  | c :: rest =>
    if isBreak c then
      (quotedBreaks? true rest).map fun found => (folded (breakText c :: found.1),found.2)
    else some (gap,c :: rest)

def singleQuoted? : Nat → Text → Option (Text × Text)
  | 0,_ => none
  | _,[] => none
  | fuel + 1,'\'' :: '\'' :: rest =>
    (singleQuoted? fuel rest).map fun found => ('\'' :: found.1,found.2)
  | fuel + 1,c :: rest =>
    if c = '\'' then some ([],rest)
    else if isGap c || isBreak c then do
      let (gap,rest) ← quotedGap? (c :: rest)
      let (text,rest) ← singleQuoted? fuel rest
      return (gap ++ text,rest)
    else (singleQuoted? fuel rest).map fun found => (c :: found.1,found.2)

def escapes : List (Char × Char) :=
  [('0','\x00'), ('a','\x07'), ('b','\x08'), ('t','\x09'), ('\t','\x09'), ('n','\n'), ('v','\x0b'),
    ('f','\x0c'), ('r','\r'), ('e','\x1b'), (' ',' '), ('"','"'), ('\\','\\'), ('/','/'),
    ('N','\x85'), ('_','\xa0'), ('L','\u2028'), ('P','\u2029')]

def widths : List (Char × Nat) := [('x',2), ('u',4), ('U',8)]

def escape? : Text → Option (Text × Text)
  | [] => none
  | c :: rest =>
    match escapes.lookup c,widths.lookup c with
    | some meant,_ => some ([meant],rest)
    | none,some width =>
      let digits := rest.take width
      let code := Scalar.ofDigits 16 digits
      if digits.length = width ∧ digits.all Scalar.isHexDigit ∧ code.isValidChar then
        some ([Char.ofNat code],rest.drop width)
      else none
    | none,none => if isBreak c then quotedBreaks? true rest else none

def doubleQuoted? : Nat → Text → Option (Text × Text)
  | 0,_ => none
  | _,[] => none
  | fuel + 1,c :: rest =>
    if c = '"' then some ([],rest)
    else if c = '\\' then do
      let (meant,rest) ← escape? rest
      let (text,rest) ← doubleQuoted? fuel rest
      return (meant ++ text,rest)
    else if isGap c || isBreak c then do
      let (gap,rest) ← quotedGap? (c :: rest)
      let (text,rest) ← doubleQuoted? fuel rest
      return (gap ++ text,rest)
    else (doubleQuoted? fuel rest).map fun found => (c :: found.1,found.2)

def flowMarks : List Char := [',','[',']','\x7b','\x7d']

def stopsPlain (inFlow : Bool) (c : Char) (next : Option Char) : Bool :=
  isGap c || isBreak c ||
    (c == ':' && (endsWord next || (inFlow && next.any flowMarks.contains))) ||
    (inFlow && (c == '?' || flowMarks.contains c))

def startsPlain (inFlow : Bool) (c : Char) (next : Option Char) : Bool :=
  if c == '-' || c == '?' || c == ':' then !endsWord next && (c == '-' || !inFlow)
  else !(isGap c || isBreak c || [',','[',']','\x7b','\x7d','#','&','*','!','|','>','\'','"','%','@',
    '\x60'].contains c)

def plainWord (inFlow : Bool) : Text → Text × Text
  | [] => ([],[])
  | c :: rest =>
    if stopsPlain inFlow c rest.head? then ([],c :: rest)
    else
      let (word,rest) := plainWord inFlow rest
      (c :: word,rest)

def plainBreaks? : Nat → Text → Option (List Char × Nat × Text)
  | column,[] => some ([],column,[])
  | column,c :: rest =>
    if column = 0 && isMarker (c :: rest) then none
    else if c = ' ' then plainBreaks? (column + 1) rest
    else if isBreak c then
      (plainBreaks? 0 rest).map fun found => (breakText c :: found.1,found.2)
    else some ([],column,c :: rest)

def plainGap? (inFlow : Bool) (indent : Nat) (text : Text) : Option (Text × Text) :=
  let spaces := text.takeWhile (· == ' ')
  match text.dropWhile (· == ' ') with
  | [] => none
  | c :: rest =>
    if isBreak c then
      match plainBreaks? 0 rest with
      | some (breaks,column,next) =>
        if next.head? = some '#' || (!inFlow && column < indent) then none
        else some (folded (breakText c :: breaks),next)
      | none => none
    else if c = '#' || spaces = [] then none
    else some (spaces,c :: rest)

def plainWords (inFlow : Bool) (indent : Nat) : Nat → Text → Text × Text
  | 0,text => ([],text)
  | fuel + 1,text =>
    let (word,rest) := plainWord inFlow text
    match plainGap? inFlow indent rest with
    | none => (word,rest)
    | some (gap,next) =>
      match plainWords inFlow indent fuel next with
      | ([],_) => (word,rest)
      | (more,rest) => (word ++ gap ++ more,rest)

def plain (inFlow : Bool) (indent : Nat) (text : Text) : Text × Text :=
  plainWords inFlow indent text.length text

def skip? : Bool → Bool → Text → Option Text
  | _,_,[] => some []
  | atStart,inComment,c :: rest =>
    if atStart && isMarker (c :: rest) then none
    else if isBreak c then skip? true false rest
    else if inComment then skip? false true rest
    else if c = ' ' then skip? false false rest
    else if c = '#' then skip? false true rest
    else some (c :: rest)

def isKey (before after : Text) : Bool :=
  let taken := before.take (before.length - after.length)
  taken.length ≤ 1024 && !taken.any isBreak

def afterColon? (keyed : Bool) (text : Text) : Option (Option Text) :=
  match text.dropWhile (· == ' ') with
  | ':' :: rest => if keyed then some (some rest) else none
  | _ => some none

mutual

def node? : Nat → Text → Option (Node × Text)
  | 0,_ => none
  | _,[] => none
  | fuel + 1,'[' :: rest => (items? fuel rest).map fun found => (.sequence found.1,found.2)
  | fuel + 1,'\x7b' :: rest => (entries? fuel rest).map fun found => (.mapping found.1,found.2)
  | fuel + 1,'\'' :: rest => (singleQuoted? fuel rest).map fun found => (.quoted found.1,found.2)
  | fuel + 1,'"' :: rest => (doubleQuoted? fuel rest).map fun found => (.quoted found.1,found.2)
  | _ + 1,c :: rest =>
    if startsPlain true c rest.head? then
      let (text,rest) := plain true 0 (c :: rest)
      some (.plain text,rest)
    else none

def pair? : Nat → Text → Option (Node × Option Node × Text)
  | 0,_ => none
  | fuel + 1,text => do
    let (key,rest) ← node? fuel text
    match ← afterColon? (isKey text rest) rest with
    | none =>
      let rest ← skip? false false rest
      if rest.head? = some ':' then none else return (key,none,rest)
    | some rest =>
      let rest ← skip? false false rest
      match rest.head? with
      | some ',' => return (key,some Node.empty,rest)
      | some ']' => return (key,some Node.empty,rest)
      | some '\x7d' => return (key,some Node.empty,rest)
      | _ =>
        let (value,rest) ← node? fuel rest
        let rest ← skip? false false rest
        return (key,some value,rest)

def items? : Nat → Text → Option (List Node × Text)
  | 0,_ => none
  | fuel + 1,text => do
    match ← skip? false false text with
    | ']' :: rest => return ([],rest)
    | inside =>
      let (key,value,rest) ← pair? fuel inside
      let item := match value with
        | none => key
        | some value => .mapping [(key,value)]
      match rest with
      | ']' :: rest => return ([item],rest)
      | ',' :: rest =>
        let (items,rest) ← items? fuel rest
        return (item :: items,rest)
      | _ => none

def entries? : Nat → Text → Option (List (Node × Node) × Text)
  | 0,_ => none
  | fuel + 1,text => do
    match ← skip? false false text with
    | '\x7d' :: rest => return ([],rest)
    | inside =>
      let (key,value,rest) ← pair? fuel inside
      let entry := (key,value.getD Node.empty)
      match rest with
      | '\x7d' :: rest => return ([entry],rest)
      | ',' :: rest =>
        let (entries,rest) ← entries? fuel rest
        return (entry :: entries,rest)
      | _ => none

end

end Plainmark.Yaml.Flow
