import Plainmark.Yaml.Block

namespace Plainmark.Yaml

inductive Value where
  | scalar (scalar : Scalar)
  | sequence (items : List Value)
  | mapping (entries : List (Value × Value))

inductive Kind where
  | null
  | boolean
  | integer
  | float
  | date
  | moment
  | text
  | bytes
  | sequence
  | mapping
deriving DecidableEq

def Kind.name : Kind → Text
  | .null => "NoneType".toList
  | .boolean => "bool".toList
  | .integer => "int".toList
  | .float => "float".toList
  | .date => "date".toList
  | .moment => "datetime".toList
  | .text => "str".toList
  | .bytes => "bytes".toList
  | .sequence => "list".toList
  | .mapping => "dict".toList

end Plainmark.Yaml

namespace Plainmark.Yaml.Value

-- Equality cannot be derived, because values stand inside of lists.
mutual

def decideEq : (one two : Value) → Decidable (one = two)
  | .scalar one,.scalar two => decidable_of_iff (one = two) (by rw [scalar.injEq])
  | .sequence one,.sequence two =>
    have := decideItems one two
    decidable_of_iff (one = two) (by rw [sequence.injEq])
  | .mapping one,.mapping two =>
    have := decideEntries one two
    decidable_of_iff (one = two) (by rw [mapping.injEq])
  | .scalar _,.sequence _ | .scalar _,.mapping _ | .sequence _,.scalar _
  | .sequence _,.mapping _ | .mapping _,.scalar _ | .mapping _,.sequence _ => .isFalse nofun

def decideItems : (one two : List Value) → Decidable (one = two)
  | [],[] => .isTrue rfl
  | [],_ :: _ | _ :: _,[] => .isFalse nofun
  | one :: ones,two :: twos =>
    have := decideEq one two
    have := decideItems ones twos
    decidable_of_iff (one = two ∧ ones = twos) (by rw [List.cons.injEq])

def decideEntries : (one two : List (Value × Value)) → Decidable (one = two)
  | [],[] => .isTrue rfl
  | [],_ :: _ | _ :: _,[] => .isFalse nofun
  | (oneKey,one) :: ones,(twoKey,two) :: twos =>
    have := decideEq oneKey twoKey
    have := decideEq one two
    have := decideEntries ones twos
    decidable_of_iff ((oneKey = twoKey ∧ one = two) ∧ ones = twos)
      (by rw [List.cons.injEq,Prod.mk.injEq])

end

instance decidableEq : DecidableEq Value := decideEq

def kind : Value → Kind
  | .scalar .null => .null
  | .scalar (.boolean _) => .boolean
  | .scalar (.integer _) => .integer
  | .scalar (.float _) => .float
  | .scalar .date => .date
  | .scalar .moment => .moment
  | .scalar (.text _) => .text
  | .scalar (.bytes _) => .bytes
  | .scalar (.unusable _) => .text
  | .sequence _ => .sequence
  | .mapping _ => .mapping

def isVoid : Value → Bool
  | .scalar .null => true
  | .scalar (.boolean value) => !value
  | .scalar (.integer value) => value == 0
  | .scalar (.float zero) => zero
  | .scalar (.text value) => value.isEmpty
  | .scalar (.bytes value) => value.isEmpty
  | .sequence items => items.isEmpty
  | .mapping entries => entries.isEmpty
  | _ => false

def ofScalar : Scalar → Except Fault Value
  | .unusable fault => .error fault
  | meaning => .ok (.scalar meaning)

end Plainmark.Yaml.Value

namespace Plainmark.Yaml.Node

mutual

-- The value of a node. A key has to be a scalar; the first scalar that cannot
-- be used decides the fault.
def value? : Node → Except Fault Value
  | .plain text => Value.ofScalar (Scalar.ofPlain text)
  | .quoted text => .ok (.scalar (.text text))
  | .binary text => Value.ofScalar (Scalar.ofBase64 text)
  | .sequence items => do return .sequence (← values? items)
  | .mapping entries => do return .mapping (← entryValues? entries)

def values? : List Node → Except Fault (List Value)
  | [] => .ok []
  | node :: nodes => do
    let value ← value? node
    return value :: (← values? nodes)

def entryValues? : List (Node × Node) → Except Fault (List (Value × Value))
  | [] => .ok []
  | entry :: entries => do
    let pair ← pairValues? entry
    return pair :: (← entryValues? entries)

def pairValues? : Node × Node → Except Fault (Value × Value)
  | (key,node) => do
    let key ← keyValue? key
    return (key,← value? node)

def keyValue? : Node → Except Fault Value
  | .plain ['='] => .ok (.scalar (.text ['=']))
  | .plain text => Value.ofScalar (Scalar.ofPlain text)
  | .quoted text => .ok (.scalar (.text text))
  | .binary text => Value.ofScalar (Scalar.ofBase64 text)
  | .sequence _ => .error .malformed
  | .mapping _ => .error .malformed

end

end Plainmark.Yaml.Node

namespace Plainmark.Yaml.Document
open Text

def isAllowed (c : Char) : Bool :=
  inRanges [(0x09,0x0A), (0x0D,0x0D), (0x20,0x7E), (0x85,0x85), (0xA0,0xD7FF), (0xE000,0xFFFD),
    (0x10000,0x10FFFF)] c

def unifyBreaks : Text → Text
  | [] => []
  | '\r' :: '\n' :: rest => '\n' :: unifyBreaks rest
  | c :: rest => (if c = '\r' then '\n' else c) :: unifyBreaks rest

def withoutMark : Text → Text
  | '\uFEFF' :: rest => rest
  | text => text

def endsStream : Nat → Cursor → Bool
  | 0,_ => false
  | fuel + 1,cursor =>
    let place := cursor.toNext.2
    match place.rest with
    | [] => true
    | '.' :: '.' :: '.' :: rest =>
      place.column == 0 && Flow.isMarker place.rest && endsStream fuel ⟨3,rest⟩
    | _ => false

def node? (text : Text) : Option Node :=
  let text := withoutMark text
  let fuel := 8 * text.length + 16
  let start := (Cursor.mk 0 text).toNext.2
  if !text.all isAllowed then none
  else if start.rest.isEmpty then some Node.empty
  else
    match start.ended,start.rest with
    | true,'-' :: '-' :: '-' :: rest => only fuel (Block.node? fuel 0 false ⟨3,rest⟩)
    | true,_ => none
    | false,_ => only fuel (Block.node? fuel 0 true start)
where
  only (fuel : Nat) (read : Option (Node × Cursor)) : Option Node := do
    let (node,after) ← read
    if endsStream fuel after then return node else none

def read (text : Text) : Except Fault Value :=
  match node? (unifyBreaks text) with
  | some node => node.value?
  | none => .error .malformed

end Plainmark.Yaml.Document
