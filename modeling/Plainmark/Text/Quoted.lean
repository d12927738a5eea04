import Plainmark.Text.Printable

namespace Plainmark.Text

-- Apostrophes enclose a quoted text, unless it holds an apostrophe and no
-- double quote; then double quotes do, and the apostrophe needs no escape.
def quoteFor (text : Text) : Char :=
  if '\'' ∈ text ∧ '"' ∉ text then '"' else '\''

def hex (width number : Nat) : Text := padZeros width (Nat.toDigits 16 number)

def byNumber (c : Char) : Text :=
  if c.toNat < 0x100 then '\\' :: 'x' :: hex 2 c.toNat
  else if c.toNat < 0x10000 then '\\' :: 'u' :: hex 4 c.toNat
  else '\\' :: 'U' :: hex 8 c.toNat

def escaped (quote c : Char) : Text :=
  if c = quote ∨ c = '\\' then ['\\',c]
  else if c = '\n' then ['\\','n']
  else if c = '\r' then ['\\','r']
  else if c = '\t' then ['\\','t']
  else if isPrintable c then [c]
  else byNumber c

def quoted (text : Text) : Text :=
  quoteFor text :: text.flatMap (escaped (quoteFor text)) ++ [quoteFor text]

end Plainmark.Text
