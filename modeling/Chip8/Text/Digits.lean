/-! Whole numbers as text: digits in a base, zero padding that counts the sign, and groups of three. -/

namespace Chip8.Text

def padLeft (width : Nat) (s : String) : String :=
  String.ofList (List.leftpad width ' ' s.toList)

def sign (i : Int) : List Char :=
  if i < 0 then ['-'] else []

/-- Upper-case hexadecimal, filled with zeros up to a width that counts the sign. -/
def hex (width : Nat) (i : Int) : String :=
  let digits := (Nat.toDigits 16 i.natAbs).map Char.toUpper
  String.ofList (sign i ++ List.leftpad (width - (sign i).length) '0' digits)

/-- The digits with a comma before every third one, counted from the right. -/
def groupThrees : List Char → List Char
  | [] => []
  | d :: rest =>
    if rest ≠ [] ∧ rest.length % 3 = 0 then d :: ',' :: groupThrees rest
    else d :: groupThrees rest

def grouped (i : Int) : String :=
  String.ofList (sign i ++ groupThrees (Nat.toDigits 10 i.natAbs))

end Chip8.Text
