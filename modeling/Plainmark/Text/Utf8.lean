import Plainmark.Text.Basic

namespace Plainmark.Text

abbrev Bytes := List UInt8

end Plainmark.Text

namespace Plainmark.Text.Utf8

def byte (value : Nat) : UInt8 := UInt8.ofNat value

def encodeChar (c : Char) : Bytes :=
  let code := c.toNat
  if code < 0x80 then [byte code]
  else if code < 0x800 then [byte (0xC0 + code / 64),byte (0x80 + code % 64)]
  else if code < 0x10000 then
    [byte (0xE0 + code / 4096),byte (0x80 + code / 64 % 64),byte (0x80 + code % 64)]
  else
    [byte (0xF0 + code / 262144),byte (0x80 + code / 4096 % 64),byte (0x80 + code / 64 % 64),
      byte (0x80 + code % 64)]

def encode (text : Text) : Bytes := text.flatMap encodeChar

def size (text : Text) : Nat := (encode text).length

inductive Reason where
  | start
  | continuation
  | ending
deriving DecidableEq

structure Fault where
  reason : Reason
  first : UInt8
  position : Nat
  size : Nat
deriving DecidableEq

-- What a first byte announces: the bits it carries, and the range of each byte
-- that has to follow. The ranges leave out second spellings of shorter forms,
-- surrogates, and what lies beyond the last code point.
structure Lead where
  bits : Nat
  follow : List (Nat × Nat)

def lead? (first : Nat) : Option Lead :=
  if first < 0x80 then some ⟨first,[]⟩
  else if first < 0xC2 then none
  else if first < 0xE0 then some ⟨first - 0xC0,[(0x80,0xBF)]⟩
  else if first < 0xF0 then
    let second := if first = 0xE0 then (0xA0,0xBF) else if first = 0xED then (0x80,0x9F)
      else (0x80,0xBF)
    some ⟨first - 0xE0,[second,(0x80,0xBF)]⟩
  else if first < 0xF5 then
    let second := if first = 0xF0 then (0x90,0xBF) else if first = 0xF4 then (0x80,0x8F)
      else (0x80,0xBF)
    some ⟨first - 0xF0,[second,(0x80,0xBF),(0x80,0xBF)]⟩
  else none

def follow (code taken : Nat) : List (Nat × Nat) → Bytes → Except (Reason × Nat) (Nat × Bytes)
  | [],bytes => .ok (code,bytes)
  | _ :: _,[] => .error (.ending,taken)
  | range :: ranges,b :: bytes =>
    if range.1 ≤ b.toNat ∧ b.toNat ≤ range.2 then
      follow (code * 64 + (b.toNat - 0x80)) (taken + 1) ranges bytes
    else .error (.continuation,taken)

theorem follow_shorter {code taken : Nat} {ranges : List (Nat × Nat)} {bytes : Bytes}
    {result : Nat × Bytes} (followed : follow code taken ranges bytes = .ok result) :
    result.2.length ≤ bytes.length := by
  induction ranges generalizing code taken bytes with
  | nil =>
    simp only [follow] at followed
    cases followed
    exact Nat.le_refl _
  | cons range ranges ih =>
    cases bytes with
    | nil => simp [follow] at followed
    | cons b bytes =>
      simp only [follow] at followed
      split at followed
      · exact Nat.le_succ_of_le (ih followed)
      · cases followed

def decodeFrom (position : Nat) (done : Text) : Bytes → Except Fault Text
  | [] => .ok done.reverse
  | first :: bytes =>
    match lead? first.toNat with
    | none => .error ⟨.start,first,position,1⟩
    | some lead =>
      match _followed : follow lead.bits 1 lead.follow bytes with
      | .ok (code,rest) =>
        decodeFrom (position + 1 + lead.follow.length) (Char.ofNat code :: done) rest
      | .error (reason,taken) => .error ⟨reason,first,position,taken⟩
termination_by bytes => bytes.length
decreasing_by
  have bound : rest.length ≤ bytes.length := follow_shorter _followed
  simp only [List.length_cons]
  omega

def decode (bytes : Bytes) : Except Fault Text := decodeFrom 0 [] bytes

def Reason.message : Reason → Text
  | .start => "invalid start byte".toList
  | .continuation => "invalid continuation byte".toList
  | .ending => "unexpected end of data".toList

def Fault.message (fault : Fault) : Text :=
  "'utf-8' codec can't decode byte".toList ++
    (if fault.size = 1 then
      " 0x".toList ++ padZeros 2 (Nat.toDigits 16 fault.first.toNat) ++ " in position ".toList ++
        decimal fault.position
    else
      "s in position ".toList ++ decimal fault.position ++ ['-'] ++
        decimal (fault.position + fault.size - 1)) ++
    ": ".toList ++ fault.reason.message

end Plainmark.Text.Utf8
