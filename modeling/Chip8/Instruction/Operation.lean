import Chip8.Instruction

/-! What the register operations compute. Each takes `VX`, `VY` and the flag, and gives the new
`VX` with the new flag; an operation that reports nothing hands the flag back. -/

namespace Chip8.Operation

def bit (b : Bool) : UInt8 := if b then 1 else 0

/-- Subtraction reports the absence of a borrow, the shifts report the bit that falls off. -/
def apply (op : Operation) (vx vy vf : UInt8) : UInt8 × UInt8 :=
  match op with
  | .copy => (vy, vf)
  | .or => (vx ||| vy, vf)
  | .and => (vx &&& vy, vf)
  | .xor => (vx ^^^ vy, vf)
  | .add => (vx + vy, bit (255 < vx.toNat + vy.toNat))
  | .sub => (vx - vy, bit (vy ≤ vx))
  | .shiftRight => (vx >>> 1, vx &&& 1)
  | .subFrom => (vy - vx, bit (vx ≤ vy))
  | .shiftLeft => (vx <<< 1, vx >>> 7)

theorem toNat_bit (b : Bool) : (bit b).toNat = b.toNat := by cases b <;> rfl

end Chip8.Operation
