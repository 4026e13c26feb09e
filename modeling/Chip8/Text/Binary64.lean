import Chip8.Text.Digits

/-! Binary floating-point numbers as text. A finite number is a whole number times a power of two, so
both forms below come from exact integer arithmetic: `fixed` rounds to a number of places, a half going
to the even neighbour, and `shortest` takes the coarsest decimal grid with a point that reads back
as the same number. -/

namespace Chip8.Text

inductive Binary64
  | finite (negative : Bool) (mantissa : Nat) (exponent : Int)
  | infinite (negative : Bool)
  | notANumber
deriving DecidableEq, Repr

namespace Binary64

def twos (k : Nat) : Nat := Nat.pow 2 k

def tens (k : Nat) : Nat := Nat.pow 10 k

/-- One bit of sign, eleven of exponent, fifty-two of fraction. -/
def ofBits (bits : UInt64) : Binary64 :=
  let b : Nat := bits.toNat
  let negative := decide (b / twos 63 = 1)
  let exponent : Nat := b / twos 52 % 2048
  let fraction := b % twos 52
  if exponent = 2047 then
    if fraction = 0 then infinite negative else notANumber
  else if exponent = 0 then finite negative fraction (-1074)
  else finite negative (twos 52 + fraction) ((exponent : Int) - 1075)

def ofFloat (x : Float) : Binary64 := ofBits x.toBits

/-- `n / d` to the nearest whole number, a half to the even neighbour. -/
def roundHalfEven (n d : Nat) : Nat :=
  let q := n / d
  let r := 2 * (n % d)
  if r < d ∨ (r = d ∧ q % 2 = 0) then q else q + 1

/-- `2 ^ q` as a fraction. -/
def power (q : Int) : Nat × Nat :=
  (twos q.toNat, twos (-q).toNat)

/-- The whole number next to a finite one on the side of zero. -/
def truncate : Binary64 → Int
  | finite negative m q =>
    let whole := m * (power q).1 / (power q).2
    if negative then -whole else whole
  | _ => 0

def minus (negative : Bool) : String := if negative then "-" else ""

def nonFinite : Binary64 → String
  | infinite negative => minus negative ++ "inf"
  | _ => "nan"

/-- A fixed number of places after the point; `group` is applied to the digits before it. -/
def fixedWith (group : List Char → List Char) (places : Nat) : Binary64 → String
  | finite negative m q =>
    let scaled := roundHalfEven (m * tens places * (power q).1) (power q).2
    let digits := List.leftpad (places + 1) '0' (Nat.toDigits 10 scaled)
    let whole := group (digits.take (digits.length - places))
    let fraction := digits.drop (digits.length - places)
    minus negative ++ String.ofList whole ++
      if places = 0 then "" else String.ofList ('.' :: fraction)
  | x => nonFinite x

def fixed (places : Nat) (x : Binary64) : String := fixedWith id places x

def fixedGrouped (places : Nat) (x : Binary64) : String := fixedWith groupThrees places x

/-- The distance from `m · 2 ^ q` down to the end of the interval that reads back as it, in quarters
of the last binary place; it is halved just above a power of two. -/
def lowerGap (m : Nat) (q : Int) : Nat :=
  if m = twos 52 ∧ q ≠ -1074 then 1 else 2

/-- Whether `c · 10 ^ k` reads back as `m · 2 ^ q`; the ends of the interval do when `m` is even. -/
def readsBack (m : Nat) (q : Int) (c : Nat) (k : Int) : Bool :=
  let unit := power (q - 2)
  let scale := unit.1 * tens (-k).toNat
  let low := (4 * m - lowerGap m q) * scale
  let high := (4 * m + 2) * scale
  let value := c * tens k.toNat * unit.2
  if m % 2 = 0 then low ≤ value ∧ value ≤ high else low < value ∧ value < high

/-- The point of the grid of `10 ^ k` that reads back as `m · 2 ^ q` and lies nearest to it. -/
def gridPoint? (m : Nat) (q k : Int) : Option Nat :=
  let unit := power q
  let n := m * unit.1 * tens (-k).toNat
  let d := unit.2 * tens k.toNat
  let below := n / d
  let nearest := roundHalfEven n d
  if nearest ≠ 0 ∧ readsBack m q nearest k then some nearest
  else if below ≠ 0 ∧ readsBack m q below k then some below
  else if readsBack m q (below + 1) k then some (below + 1)
  else none

/-- The digits of `m · 2 ^ q` on the coarsest grid that has any, and the exponent of that grid. -/
def shortestDigits (m : Nat) (q : Int) : Nat × Int :=
  let grids := (List.range 660).map fun i : Nat => 310 - (i : Int)
  (grids.findSome? fun k => (gridPoint? m q k).map fun c => (c, k)).getD (m, q)

/-- Numbers from `10 ^ -4` up to `10 ^ 16` are written without an exponent. -/
def layout (digits : List Char) (k : Int) : List Char :=
  let point := (digits.length : Int) + k
  let e := point - 1
  if -4 ≤ e ∧ e < 16 then
    if point ≤ 0 then ['0', '.'] ++ List.replicate (-point).toNat '0' ++ digits
    else if digits.length ≤ point.toNat then
      digits ++ List.replicate (point.toNat - digits.length) '0' ++ ['.', '0']
    else digits.take point.toNat ++ ['.'] ++ digits.drop point.toNat
  else
    let rest := digits.drop 1
    digits.take 1 ++ (if rest = [] then [] else '.' :: rest) ++
      ['e', if e < 0 then '-' else '+'] ++ List.leftpad 2 '0' (Nat.toDigits 10 e.natAbs)

/-- The fewest digits that read back as the same number. -/
def shortest : Binary64 → String
  | finite negative 0 _ => minus negative ++ "0.0"
  | finite negative m q =>
    let d := shortestDigits m q
    minus negative ++ String.ofList (layout (Nat.toDigits 10 d.1) d.2)
  | x => nonFinite x

end Binary64

end Chip8.Text
