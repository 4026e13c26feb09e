import Chip8.Instruction.Fields

/-! The instruction set: one constructor for each of its patterns, the word that spells an
instruction, and the reading of a word. A word that matches no pattern is read as `none`; what the
machine does about it is decided where it executes. -/

namespace Chip8

/-- The register operations of family 8. -/
inductive Operation
  | copy | or | and | xor | add | sub | shiftRight | subFrom | shiftLeft
deriving DecidableEq, Repr

/-- The low nibble that selects an operation. -/
def Operation.selector : Operation → Nat
  | .copy => 0
  | .or => 1
  | .and => 2
  | .xor => 3
  | .add => 4
  | .sub => 5
  | .shiftRight => 6
  | .subFrom => 7
  | .shiftLeft => 14

def Operation.all : List Operation :=
  [.copy, .or, .and, .xor, .add, .sub, .shiftRight, .subFrom, .shiftLeft]

def Operation.ofSelector? (n : Nat) : Option Operation :=
  Operation.all.find? fun o => o.selector = n

inductive Instruction
  | clear
  | ret
  | jump (target : Address)
  | call (target : Address)
  | skipEqualByte (x : Register) (byte : UInt8)
  | skipUnequalByte (x : Register) (byte : UInt8)
  | skipEqual (x y : Register)
  | setByte (x : Register) (byte : UInt8)
  | addByte (x : Register) (byte : UInt8)
  | operate (op : Operation) (x y : Register)
  | skipUnequal (x y : Register)
  | setIndex (target : Address)
  | jumpOffset (base : Address)
  | random (x : Register) (mask : UInt8)
  | draw (x y height : Register)
  | skipPressed (x : Register)
  | skipReleased (x : Register)
  | readDelay (x : Register)
  | awaitKey (x : Register)
  | setDelay (x : Register)
  | setSound (x : Register)
  | addIndex (x : Register)
  | glyph (x : Register)
  | digits (x : Register)
  | store (x : Register)
  | load (x : Register)
deriving DecidableEq, Repr

namespace Instruction

/-- A word from a family and the three nibbles after it. -/
def pack (family x y n : Nat) : Nat :=
  4096 * family + 256 * x + 16 * y + n

def encode : Instruction → Nat
  | clear => pack 0x0 0x0 0xE 0x0
  | ret => pack 0x0 0x0 0xE 0xE
  | jump a => 4096 * 0x1 + a.val
  | call a => 4096 * 0x2 + a.val
  | skipEqualByte x b => pack 0x3 x 0 b.toNat
  | skipUnequalByte x b => pack 0x4 x 0 b.toNat
  | skipEqual x y => pack 0x5 x y 0x0
  | setByte x b => pack 0x6 x 0 b.toNat
  | addByte x b => pack 0x7 x 0 b.toNat
  | operate op x y => pack 0x8 x y op.selector
  | skipUnequal x y => pack 0x9 x y 0x0
  | setIndex a => 4096 * 0xA + a.val
  | jumpOffset a => 4096 * 0xB + a.val
  | random x b => pack 0xC x 0 b.toNat
  | draw x y n => pack 0xD x y n
  | skipPressed x => pack 0xE x 0x9 0xE
  | skipReleased x => pack 0xE x 0xA 0x1
  | readDelay x => pack 0xF x 0x0 0x7
  | awaitKey x => pack 0xF x 0x0 0xA
  | setDelay x => pack 0xF x 0x1 0x5
  | setSound x => pack 0xF x 0x1 0x8
  | addIndex x => pack 0xF x 0x1 0xE
  | glyph x => pack 0xF x 0x2 0x9
  | digits x => pack 0xF x 0x3 0x3
  | store x => pack 0xF x 0x5 0x5
  | load x => pack 0xF x 0x6 0x5

/-- Family 0: only the two words `00E0` and `00EE`. -/
def ofSystem? (f : Fields) : Option Instruction :=
  if f.nnn.val = 0x0E0 then some clear
  else if f.nnn.val = 0x0EE then some ret
  else none

def ofKey? (f : Fields) : Option Instruction :=
  if f.nn = 0x9E then some (skipPressed f.x)
  else if f.nn = 0xA1 then some (skipReleased f.x)
  else none

/-- The selectors of family F, each with the instruction it makes of a register. -/
def miscellany : List (UInt8 × (Register → Instruction)) :=
  [(0x07, readDelay), (0x0A, awaitKey), (0x15, setDelay), (0x18, setSound), (0x1E, addIndex),
    (0x29, glyph), (0x33, digits), (0x55, store), (0x65, load)]

def ofMiscellany? (f : Fields) : Option Instruction :=
  (miscellany.find? fun entry => entry.1 = f.nn).map fun entry => entry.2 f.x

/-- The instruction a word spells, or `none` when it matches no pattern. -/
def ofFields? (f : Fields) : Option Instruction :=
  match f.family.val with
  | 0x0 => ofSystem? f
  | 0x1 => some (jump f.nnn)
  | 0x2 => some (call f.nnn)
  | 0x3 => some (skipEqualByte f.x f.nn)
  | 0x4 => some (skipUnequalByte f.x f.nn)
  | 0x5 => if f.n.val = 0 then some (skipEqual f.x f.y) else none
  | 0x6 => some (setByte f.x f.nn)
  | 0x7 => some (addByte f.x f.nn)
  | 0x8 => (Operation.ofSelector? f.n.val).map fun op => operate op f.x f.y
  | 0x9 => if f.n.val = 0 then some (skipUnequal f.x f.y) else none
  | 0xA => some (setIndex f.nnn)
  | 0xB => some (jumpOffset f.nnn)
  | 0xC => some (random f.x f.nn)
  | 0xD => some (draw f.x f.y f.n)
  | 0xE => ofKey? f
  | _ => ofMiscellany? f

end Instruction

end Chip8
