import Plainmark.Text.Utf8

namespace Plainmark.Text.Base64
open Text

def sextet? (c : Char) : Option Nat :=
  if 'A' ≤ c ∧ c ≤ 'Z' then some (c.toNat - 'A'.toNat)
  else if 'a' ≤ c ∧ c ≤ 'z' then some (c.toNat - 'a'.toNat + 26)
  else if c.isDigit then some (c.toNat - '0'.toNat + 52)
  else if c = '+' then some 62
  else if c = '/' then some 63
  else none

-- Read from a place in a group of four digits, with the bits that are left of the
-- digit before. Other characters are passed over, and so is padding that comes too
-- early; padding that fills a group ends the text.
def bytesFrom? (place padding left : Nat) : Text → Option Bytes
  | [] => if place = 0 then some [] else none
  | c :: text =>
    if c = '=' then
      if place < 2 then bytesFrom? place padding left text
      else if 3 ≤ place + padding then some []
      else bytesFrom? place (padding + 1) left text
    else
      match sextet? c,place with
      | none,_ => bytesFrom? place padding left text
      | some digit,0 => bytesFrom? 1 0 digit text
      | some digit,1 =>
        (bytesFrom? 2 0 (digit % 16) text).map (Utf8.byte (left * 4 + digit / 16) :: ·)
      | some digit,2 =>
        (bytesFrom? 3 0 (digit % 4) text).map (Utf8.byte (left * 16 + digit / 4) :: ·)
      | some digit,_ => (bytesFrom? 0 0 0 text).map (Utf8.byte (left * 64 + digit) :: ·)

def bytes? (text : Text) : Option Bytes :=
  if text.all fun c => c.toNat < 0x80 then bytesFrom? 0 0 0 text else none

end Plainmark.Text.Base64
