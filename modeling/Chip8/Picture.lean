import Chip8.Error
import Chip8.Screen

/-! Pictures of screens. A bitmap holds palette positions, a picture colours; drawing a bitmap gives each
of its cells a square block of one colour. -/

namespace Chip8

/-- Positions of a two-colour palette, counted from its start, or from its end when negative. -/
structure Bitmap where
  height : Nat
  width : Nat
  cell : Nat → Nat → Int

namespace Bitmap

/-- The rows must be of one length. -/
def ofRows? (rows : List (List Int)) : Option Bitmap :=
  let width := (rows.head?.map List.length).getD 0
  let cells := (rows.map List.toArray).toArray
  if rows.all fun r => r.length = width then
    some ⟨rows.length, width, fun i j => (cells.getD i #[]).getD j 0⟩
  else none

def ofScreen (s : Screen) : Bitmap where
  height := 32
  width := 64
  cell i j := if s.pixel (Screen.row i) (Screen.column j) then 1 else 0

/-- Every cell is one of the four positions that two colours have. -/
def inPalette (b : Bitmap) : Bool :=
  (List.range b.height).all fun i => (List.range b.width).all fun j =>
    decide (-2 ≤ b.cell i j ∧ b.cell i j < 2)

end Bitmap

structure Picture where
  height : Nat
  width : Nat
  channels : Nat
  pixel : Nat → Nat → Colour

namespace Picture

def rows (p : Picture) : List (List Colour) :=
  (List.range p.height).map fun i => (List.range p.width).map fun j => p.pixel i j

def clear (height width : Nat) (colour : Colour) : Picture where
  height := height
  width := width
  channels := colour.length
  pixel _ _ := colour

/-- The picture with a rectangle replaced; positions in the block count from its corner. -/
def paint (p : Picture) (top left height width : Nat) (block : Nat → Nat → Colour) : Picture :=
  { p with pixel := fun i j =>
      if (top ≤ i ∧ i < top + height) ∧ (left ≤ j ∧ j < left + width) then block (i - top) (j - left)
      else p.pixel i j }

end Picture

/-- The unlit colour comes first in the palette. -/
def Bitmap.colour (lit unlit : Colour) (position : Int) : Colour :=
  if position = 1 ∨ position = -1 then lit else unlit

/-- Every cell as a block of `scale` by `scale` pixels. -/
def Bitmap.enlarged (b : Bitmap) (scale : Nat) (lit unlit : Colour) : Picture where
  height := b.height * scale
  width := b.width * scale
  channels := lit.length
  pixel i j := colour lit unlit (b.cell (i / scale) (j / scale))

/-- A picture of a bitmap; the scale is looked at first, then the colours, then the bitmap. -/
def Picture.render (scale : Except Error Nat) (colours : Except Error (Colour × Colour))
    (bitmap : Except Error Bitmap) : Except Error Picture := do
  let scale ← scale
  let (lit, unlit) ← colours
  let b ← bitmap
  if b.inPalette then .ok (b.enlarged scale lit unlit) else .error .outsidePalette

end Chip8
