import Chip8.Memory
import Chip8.Screen

/-! Sprites: eight pixels wide, one byte a row, drawn by toggling. `mask` gives the pixels a sprite
covers, with both edges of the screen wrapping around; `blit` toggles them one by one and notes
whether a lit pixel went out. -/

namespace Chip8.Sprite

/-- How far `a` lies behind `b` on a circle of `n`. -/
def behind (n : Nat) (a : Nat) (b : Int) : Nat :=
  ((a - b : Int) % n).toNat

/-- Column `i` of a sprite row, counted from the left. -/
def bit (byte : UInt8) (i : Nat) : Bool :=
  byte.toNat.testBit (7 - i)

def byteAt (memory : Memory) (address : Int) (row : Nat) : UInt8 :=
  memory.read ((address + row) % 4096).toNat

/-- The pixels that the sprite of the given height at `address` covers when drawn at column `x`
and row `y`. -/
def mask (memory : Memory) (address x y height : Int) : Screen :=
  Screen.ofFn fun r c =>
    let row := behind 32 r.val y
    let column := behind 64 c.val x
    decide (column < 8) && decide ((row : Int) < height) && bit (byteAt memory address row) column

/-- One toggle, and whether it put a lit pixel out. -/
def touch (drawn : Screen × Bool) (r : Fin 32) (c : Fin 64) : Screen × Bool :=
  (drawn.1.toggle r c, drawn.2 || drawn.1.pixel r c)

/-- The sprite drawn pixel by pixel, row by row from the top and each row from the left. -/
def blit (memory : Memory) (screen : Screen) (address x y height : Nat) : Screen × Bool :=
  (List.range height).foldl (fun drawn j =>
    (List.range 8).foldl (fun drawn i =>
      if bit (memory.read (address + j)) i then
        touch drawn (Screen.row (y + j)) (Screen.column (x + i))
      else drawn) drawn) (screen, false)

end Chip8.Sprite
