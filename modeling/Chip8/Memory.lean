import Chip8.Instruction.Fields

/-! Memory: 4096 bytes, addressed modulo 4096. `overlay` writes a window of bytes at once; `writeAll`
writes them one after the other. The two agree as long as the window does not meet itself. -/

namespace Chip8

abbrev Memory := Vector UInt8 4096

namespace Memory

def size : Nat := 4096

def blank : Memory := Vector.replicate 4096 0

def read (m : Memory) (address : Nat) : UInt8 :=
  m.get (Address.ofNat address)

def write (m : Memory) (address : Nat) (byte : UInt8) : Memory :=
  m.set (address % 4096) byte (Address.mod_lt address)

/-- How far an address lies behind the start of a window that may wrap around. -/
def offset (start address : Nat) : Nat :=
  (address + (4096 - start % 4096)) % 4096

/-- The memory with the window of `length` bytes from `start` on replaced. -/
def overlay (m : Memory) (start length : Nat) (byte : Nat → UInt8) : Memory :=
  Vector.ofFn fun a : Fin 4096 =>
    if offset start a.val < length then byte (offset start a.val) else m.get a

/-- The bytes of a list written one after the other. -/
def writeAll (m : Memory) (start : Nat) : List UInt8 → Memory
  | [] => m
  | b :: rest => (m.write start b).writeAll (start + 1) rest

theorem read_eq (m : Memory) (a : Nat) (h : a % 4096 < 4096) : m.read a = m[a % 4096] := rfl

theorem offset_lt (start address : Nat) : offset start address < 4096 :=
  Address.mod_lt _

theorem offset_add (start k : Nat) (h : k < 4096) : offset start ((start + k) % 4096) = k := by
  unfold offset
  omega

theorem add_offset (start : Nat) (a : Address) : (start + offset start a.val) % 4096 = a.val := by
  have := a.isLt
  unfold offset
  omega

theorem read_write (m : Memory) (a b : Nat) (byte : UInt8) :
    (m.write a byte).read b = if a % 4096 = b % 4096 then byte else m.read b := by
  simp only [read_eq _ _ (Address.mod_lt _), write, Vector.getElem_set]

theorem read_overlay (m : Memory) (start length : Nat) (byte : Nat → UInt8) (a : Nat) :
    (m.overlay start length byte).read a =
      if offset start (a % 4096) < length then byte (offset start (a % 4096)) else m.read a := by
  simp [read_eq _ _ (Address.mod_lt _), overlay]
  rfl

end Memory

/-- The glyphs of the sixteen digits, five rows each, at the bottom of memory. -/
def font : List UInt8 :=
  [0xF0, 0x90, 0x90, 0x90, 0xF0,
   0x20, 0x60, 0x20, 0x20, 0x70,
   0xF0, 0x10, 0xF0, 0x80, 0xF0,
   0xF0, 0x10, 0xF0, 0x10, 0xF0,
   0x90, 0x90, 0xF0, 0x10, 0x10,
   0xF0, 0x80, 0xF0, 0x10, 0xF0,
   0xF0, 0x80, 0xF0, 0x90, 0xF0,
   0xF0, 0x10, 0x20, 0x40, 0x40,
   0xF0, 0x90, 0xF0, 0x90, 0xF0,
   0xF0, 0x90, 0xF0, 0x10, 0xF0,
   0xF0, 0x90, 0xF0, 0x90, 0x90,
   0xE0, 0x90, 0xE0, 0x90, 0xE0,
   0xF0, 0x80, 0x80, 0x80, 0xF0,
   0xE0, 0x90, 0x90, 0x90, 0xE0,
   0xF0, 0x80, 0xF0, 0x80, 0xF0,
   0xF0, 0x80, 0xF0, 0x80, 0x80]

/-- Memory as it is at power-on: the font, and zeros above it. -/
def Memory.initial : Memory :=
  Memory.blank.overlay 0 font.length fun k => font.getD k 0

end Chip8
