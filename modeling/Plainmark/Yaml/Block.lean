import Plainmark.Yaml.Flow

namespace Plainmark.Yaml

structure Cursor where
  column : Nat
  rest : Text

end Plainmark.Yaml

namespace Plainmark.Yaml.Cursor
open Text

def skipTo (cursor : Cursor) (rest : Text) : Cursor :=
  let taken := cursor.rest.take (cursor.rest.length - rest.length)
  if taken.any Flow.isBreak then ⟨(taken.reverse.takeWhile (!Flow.isBreak ·)).length,rest⟩
  else ⟨cursor.column + taken.length,rest⟩

def next : Bool → Nat → Bool → Text → Bool × Cursor
  | crossed,column,_,[] => (crossed,⟨column,[]⟩)
  | crossed,column,inComment,c :: rest =>
    if Flow.isBreak c then next true 0 false rest
    else if inComment then next crossed (column + 1) true rest
    else if c = ' ' then next crossed (column + 1) false rest
    else if c = '#' then next crossed (column + 1) true rest
    else (crossed,⟨column,c :: rest⟩)

def toNext (cursor : Cursor) : Bool × Cursor := next false cursor.column false cursor.rest

def ended (cursor : Cursor) : Bool :=
  cursor.rest.isEmpty || (cursor.column == 0 && Flow.isMarker cursor.rest)

def atDash (cursor : Cursor) : Bool :=
  match cursor.rest with
  | '-' :: rest => Flow.endsWord rest.head?
  | _ => false

end Plainmark.Yaml.Cursor

namespace Plainmark.Yaml.Block
open Text

inductive Chomping where
  | strip
  | clip
  | keep
deriving DecidableEq

def chomping? : Char → Option Chomping
  | '-' => some .strip
  | '+' => some .keep
  | _ => none

def indentation? (c : Char) : Option Nat :=
  if '1' ≤ c && c ≤ '9' then some (Scalar.digitValue c) else none

def marks : Text → Chomping × Option Nat × Text
  | [] => (.clip,none,[])
  | [c] =>
    match chomping? c,indentation? c with
    | some chomping,_ => (chomping,none,[])
    | none,some step => (.clip,some step,[])
    | none,none => (.clip,none,[c])
  | c :: d :: rest =>
    match chomping? c,indentation? c with
    | some chomping,_ =>
      match indentation? d with
      | some step => (chomping,some step,rest)
      | none => (chomping,none,d :: rest)
    | none,some step =>
      match chomping? d with
      | some chomping => (chomping,some step,rest)
      | none => (.clip,some step,d :: rest)
    | none,none => (.clip,none,c :: d :: rest)

def afterOpening? (text : Text) : Option Text :=
  match text.dropWhile (· == ' ') with
  | [] => some []
  | c :: rest =>
    if Flow.isBreak c then some rest
    else if c = '#' then some ((rest.dropWhile (!Flow.isBreak ·)).drop 1)
    else none

def leading : Nat → Nat → Text → List Char × Nat
  | widest,_,[] => ([],widest)
  | widest,column,c :: rest =>
    if c = ' ' then leading (max widest (column + 1)) (column + 1) rest
    else if Flow.isBreak c then
      let (breaks,widest) := leading widest 0 rest
      (Flow.breakText c :: breaks,widest)
    else ([],widest)

-- Breaks up to the next line with content, and that line behind its margin.
-- The flag tells whether the line reaches the margin.
def betweenLines (margin : Nat) : Nat → Text → List Char × Bool × Text
  | column,[] => ([],column == margin,[])
  | column,c :: rest =>
    if c = ' ' && column < margin then betweenLines margin (column + 1) rest
    else if Flow.isBreak c then
      let (breaks,more) := betweenLines margin 0 rest
      (Flow.breakText c :: breaks,more)
    else ([],column == margin,c :: rest)

def ending (chomping : Chomping) (last : Text) (breaks : List Char) : Text :=
  match chomping with
  | .strip => []
  | .clip => last
  | .keep => last ++ breaks

-- The lines of a literal scalar. Folding joins two lines when neither starts
-- with a blank and no empty line stands between them.
def lines (fold : Bool) (chomping : Chomping) (margin : Nat) : Nat → Text → Text × Text
  | 0,text => ([],text)
  | fuel + 1,text =>
    let line := text.takeWhile (!Flow.isBreak ·)
    let flush := !(text.head?.any Flow.isGap)
    match text.dropWhile (!Flow.isBreak ·) with
    | [] => (line,[])
    | c :: rest =>
      let last := [Flow.breakText c]
      let (breaks,reaches,content) := betweenLines margin 0 rest
      if reaches && !content.isEmpty then
        let joint :=
          if fold && last = ['\n'] && flush && !(content.head?.any Flow.isGap) then
            if breaks.isEmpty then [' '] else []
          else last
        let (more,rest) := lines fold chomping margin fuel content
        (line ++ joint ++ breaks ++ more,rest)
      else (line ++ ending chomping last breaks,content)

def literal? (fold : Bool) (least : Nat) (text : Text) : Option (Text × Text) := do
  let (chomping,step,rest) := marks text
  let body ← afterOpening? rest
  let margin := match step with
    | some step => least + step - 1
    | none => max least (leading 0 0 body).2
  let (breaks,reaches,content) := betweenLines margin 0 body
  if reaches && !content.isEmpty then
    let (text,rest) := lines fold chomping margin text.length content
    return (breaks ++ text,rest)
  else return (if chomping = .keep then breaks else [],content)

def inline? (indent : Nat) (text : Text) : Option (Node × Text) :=
  match text with
  | [] => none
  | c :: rest =>
    if c = '[' || c = '\x7b' || c = '\'' || c = '"' then Flow.node? (4 * text.length + 4) text
    else if Flow.startsPlain false c rest.head? then
      let (scalar,rest) := Flow.plain false indent text
      some (.plain scalar,rest)
    else none

def afterColon? (text : Text) : Option Text :=
  match text.dropWhile (· == ' ') with
  | ':' :: rest => if Flow.endsWord rest.head? then some rest else none
  | _ => none

def retagged (tag : Text → Node) : Node → Option Node
  | .plain text => some (tag text)
  | .quoted text => some (tag text)
  | _ => none

mutual

-- What stands at a place, below a collection at the column before `indent`. A
-- collection may start only where nothing precedes it on its line but dashes.
def node? : Nat → Nat → Bool → Cursor → Option (Node × Cursor)
  | 0,_,_,_ => none
  | fuel + 1,indent,fresh,cursor =>
    let (crossed,place) := cursor.toNext
    let fresh := fresh || crossed
    if place.ended || place.column < indent then some (Node.empty,place)
    else if place.atDash then if fresh then sequence? fuel place else none
    else
      match place.rest with
      | '|' :: rest =>
        (literal? false (max indent 1) rest).map fun found => (.quoted found.1,place.skipTo found.2)
      | '>' :: rest =>
        (literal? true (max indent 1) rest).map fun found => (.quoted found.1,place.skipTo found.2)
      | '!' :: '!' :: 's' :: 't' :: 'r' :: ' ' :: rest => do
        let (node,place) ← node? fuel indent false (place.skipTo rest)
        return (← retagged .quoted node,place)
      | '!' :: '!' :: 'b' :: 'i' :: 'n' :: 'a' :: 'r' :: 'y' :: ' ' :: rest => do
        let (node,place) ← node? fuel indent false (place.skipTo rest)
        return (← retagged .binary node,place)
      | '!' :: ' ' :: rest => do
        let (node,place) ← node? fuel indent false (place.skipTo rest)
        return (← retagged .quoted node,place)
      | text => do
        let (node,rest) ← inline? indent text
        match afterColon? rest with
        | none => return (node,place.skipTo rest)
        | some value =>
          if fresh && Flow.isKey text rest then mapping? fuel place.column node (place.skipTo value)
          else none

def mapping? : Nat → Nat → Node → Cursor → Option (Node × Cursor)
  | 0,_,_,_ => none
  | fuel + 1,column,key,cursor => do
    let (value,after) ← value? fuel column cursor
    let place := after.toNext.2
    if place.ended || place.column < column then return (.mapping [(key,value)],place)
    else if column < place.column || place.atDash then none
    else
      let (next,rest) ← inline? (column + 1) place.rest
      let text ← afterColon? rest
      if Flow.isKey place.rest rest then
        match ← mapping? fuel column next (place.skipTo text) with
        | (.mapping entries,place) => return (.mapping ((key,value) :: entries),place)
        | _ => none
      else none

-- The value of a key at a column. A sequence may start at that same column.
def value? : Nat → Nat → Cursor → Option (Node × Cursor)
  | 0,_,_ => none
  | fuel + 1,column,cursor =>
    let (crossed,place) := cursor.toNext
    if crossed && !place.ended && place.column == column && place.atDash then sequence? fuel place
    else node? fuel (column + 1) false cursor

def sequence? : Nat → Cursor → Option (Node × Cursor)
  | 0,_ => none
  | fuel + 1,dash => do
    let (item,after) ← node? fuel (dash.column + 1) true ⟨dash.column + 1,dash.rest.drop 1⟩
    let place := after.toNext.2
    if place.ended || place.column < dash.column then return (.sequence [item],place)
    else if dash.column < place.column then none
    else if place.atDash then
      match ← sequence? fuel place with
      | (.sequence items,place) => return (.sequence (item :: items),place)
      | _ => none
    else return (.sequence [item],place)

end

end Plainmark.Yaml.Block
