import Chip8.Argument
import Chip8.Picture

/-! Many screens on one sheet: row by row on a grid as square as can be, with a gap between cells. A
drawn pixel is opaque, the gaps and the cells left over are transparent. A gap below zero makes cells
overlap, and what is drawn later covers what was drawn before. -/

namespace Chip8.Sheet

/-- The least number whose square is not below `n`. -/
def ceilRoot (n : Nat) : Nat :=
  ((List.range (n + 1)).find? fun c => n ≤ c * c).getD n

def columns (count : Nat) : Nat := ceilRoot count

def rows (count : Nat) : Nat := (count + columns count - 1) / columns count

/-- The room that `cells` cells of one size take with gaps between them. -/
def extent (cells : Nat) (size gap : Int) : Int :=
  cells * size + (cells - 1) * gap

/-- A bound of a slice of a row of `size` items: a negative one counts from the end, and none lies
outside. -/
def bound (size : Nat) (i : Int) : Nat :=
  min (if i < 0 then i + size else i).toNat size

/-- The position in a block for a position in the room it is put in; a single line is repeated. -/
def stretch (size i : Nat) : Nat := if size = 1 then 0 else i

def solid (c : Colour) : Colour := c ++ [255]

/-- The block put into the room from `top` to `bottom` and from `left` to `right`. It has to be of the
size of that room, except that one line or one column will do for any size. -/
def place (sheet block : Picture) (top left bottom right : Int) : Except Error Picture :=
  let t := bound sheet.height top
  let l := bound sheet.width left
  let h := bound sheet.height bottom - t
  let w := bound sheet.width right - l
  if (block.height = h ∨ block.height = 1) ∧ (block.width = w ∨ block.width = 1) then
    .ok (sheet.paint t l h w fun i j =>
      solid (block.pixel (stretch block.height i) (stretch block.width j)))
  else .error .shapeMismatch

/-- The bitmaps drawn one after the other from cell `index` on. -/
def fill (sheet : Picture) (columns : Nat) (cellHeight cellWidth gap : Int)
    (draw : Bitmap → Except Error Picture) : Nat → List Bitmap → Except Error Picture
  | _, [] => .ok sheet
  | index, b :: rest => do
    let block ← draw b
    let top := (index / columns : Nat) * (cellHeight + gap)
    let left := (index % columns : Nat) * (cellWidth + gap)
    let sheet ← place sheet block top left (top + cellHeight) (left + cellWidth)
    fill sheet columns cellHeight cellWidth gap draw (index + 1) rest

/-- The sheet of `count` cells of one size, before anything is drawn on it. -/
def blank (count : Nat) (cellHeight cellWidth gap : Int) : Except Error Picture :=
  let height := extent (rows count) cellHeight gap
  let width := extent (columns count) cellWidth gap
  if height < 0 ∨ width < 0 then .error .shapeMismatch
  else .ok (.clear height.toNat width.toNat [0, 0, 0, 0])

/-- A sheet of bitmaps, which have to be of one size; the scheme is looked at first. -/
def render (bitmaps : Except Error (List Bitmap)) (scale scheme gap : Value) :
    Except Error Picture := do
  let scheme ← Argument.scheme scheme
  match ← bitmaps with
  | [] => .error .divisionByZero
  | first :: rest =>
    if rest.all fun b => b.height = first.height ∧ b.width = first.width then
      let factor ← Argument.integer scale
      let gap ← Argument.integer gap
      let cellHeight := first.height * factor
      let cellWidth := first.width * factor
      let count := rest.length + 1
      let sheet ← blank count cellHeight cellWidth gap
      fill sheet (columns count) cellHeight cellWidth gap
        (fun b => Picture.render (Argument.scale scale) (.ok (scheme.lit, scheme.unlit)) (.ok b))
        0 (first :: rest)
    else .error .shapeMismatch

end Chip8.Sheet
