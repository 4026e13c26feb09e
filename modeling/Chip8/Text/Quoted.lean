import Chip8.Text.Digits
import Chip8.Text.Printable

/-! Quoted text: single quotes, unless the text has single quotes and no double ones. The quote in
use, the backslash and whatever is not printable are escaped. -/

namespace Chip8.Text

def lowerHex (width : Nat) (n : Nat) : List Char :=
  List.leftpad width '0' (Nat.toDigits 16 n)

def escape (quote c : Char) : List Char :=
  if c = quote ∨ c = '\\' then ['\\', c]
  else if c = '\t' then ['\\', 't']
  else if c = '\n' then ['\\', 'n']
  else if c = '\r' then ['\\', 'r']
  else if isPrintable c then [c]
  else if c.toNat < 0x100 then '\\' :: 'x' :: lowerHex 2 c.toNat
  else if c.toNat < 0x10000 then '\\' :: 'u' :: lowerHex 4 c.toNat
  else '\\' :: 'U' :: lowerHex 8 c.toNat

def quoteFor (l : List Char) : Char :=
  if '\'' ∈ l ∧ '"' ∉ l then '"' else '\''

def quoted (s : String) : String :=
  let q := quoteFor s.toList
  String.ofList (q :: s.toList.flatMap (escape q) ++ [q])

end Chip8.Text
