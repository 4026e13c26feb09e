/-! The instruction set as a table of patterns. A pattern is a word of four nibbles, some of which stand
for operands. -/

namespace Chip8

/-- The nibbles from the left; `none` stands for an operand. -/
structure Pattern where
  family : Nat
  x : Option Nat
  y : Option Nat
  n : Option Nat
deriving DecidableEq, Repr

namespace Pattern

/-- An operand may be any nibble. -/
def Fits (expected : Option Nat) (nibble : Nat) : Prop :=
  ∀ d ∈ expected, nibble = d

def Matches (p : Pattern) (word : Nat) : Prop :=
  word / 0x1000 = p.family ∧ Fits p.x (word / 0x100 % 16) ∧ Fits p.y (word / 0x10 % 16) ∧
    Fits p.n (word % 16)

instance : (expected : Option Nat) → (nibble : Nat) → Decidable (Fits expected nibble)
  | none, _ => isTrue fun _ h => nomatch h
  | some d, nibble =>
    decidable_of_iff (nibble = d) ⟨fun h _ he => h.trans (Option.some.inj he), fun h => h d rfl⟩

instance (p : Pattern) (word : Nat) : Decidable (p.Matches word) :=
  inferInstanceAs (Decidable (_ ∧ Fits _ _ ∧ Fits _ _ ∧ Fits _ _))

def all : List Pattern :=
  [⟨0x0, some 0x0, some 0xE, some 0x0⟩, -- 00E0
    ⟨0x0, some 0x0, some 0xE, some 0xE⟩, -- 00EE
    ⟨0x1, none, none, none⟩, -- 1NNN
    ⟨0x2, none, none, none⟩, -- 2NNN
    ⟨0x3, none, none, none⟩, -- 3XNN
    ⟨0x4, none, none, none⟩, -- 4XNN
    ⟨0x5, none, none, some 0x0⟩, -- 5XY0
    ⟨0x6, none, none, none⟩, -- 6XNN
    ⟨0x7, none, none, none⟩, -- 7XNN
    ⟨0x8, none, none, some 0x0⟩, -- 8XY0 to 8XY7
    ⟨0x8, none, none, some 0x1⟩,
    ⟨0x8, none, none, some 0x2⟩,
    ⟨0x8, none, none, some 0x3⟩,
    ⟨0x8, none, none, some 0x4⟩,
    ⟨0x8, none, none, some 0x5⟩,
    ⟨0x8, none, none, some 0x6⟩,
    ⟨0x8, none, none, some 0x7⟩,
    ⟨0x8, none, none, some 0xE⟩, -- 8XYE
    ⟨0x9, none, none, some 0x0⟩, -- 9XY0
    ⟨0xA, none, none, none⟩, -- ANNN
    ⟨0xB, none, none, none⟩, -- BNNN
    ⟨0xC, none, none, none⟩, -- CXNN
    ⟨0xD, none, none, none⟩, -- DXYN
    ⟨0xE, none, some 0x9, some 0xE⟩, -- EX9E
    ⟨0xE, none, some 0xA, some 0x1⟩, -- EXA1
    ⟨0xF, none, some 0x0, some 0x7⟩, -- FX07
    ⟨0xF, none, some 0x0, some 0xA⟩, -- FX0A
    ⟨0xF, none, some 0x1, some 0x5⟩, -- FX15
    ⟨0xF, none, some 0x1, some 0x8⟩, -- FX18
    ⟨0xF, none, some 0x1, some 0xE⟩, -- FX1E
    ⟨0xF, none, some 0x2, some 0x9⟩, -- FX29
    ⟨0xF, none, some 0x3, some 0x3⟩, -- FX33
    ⟨0xF, none, some 0x5, some 0x5⟩, -- FX55
    ⟨0xF, none, some 0x6, some 0x5⟩] -- FX65

/-- The word is spelled by no pattern. -/
def Unknown (word : Nat) : Prop :=
  ∀ p ∈ all, ¬ p.Matches word

/-- The word is spelled by one of the patterns. -/
def Among (ps : List Pattern) (word : Nat) : Prop :=
  ∃ p ∈ ps, p.Matches word

instance (ps : List Pattern) (word : Nat) : Decidable (Among ps word) :=
  decidable_of_iff (ps.any (·.Matches word) = true) (by simp [Among])

/-- The pattern with a register in the place of `X`. -/
def withX (p : Pattern) (x : Nat) : Pattern :=
  { p with x := some x }

/-! ## The patterns that decide where a program goes on -/

def ret : Pattern := ⟨0x0, some 0x0, some 0xE, some 0xE⟩ -- 00EE

def jump : Pattern := ⟨0x1, none, none, none⟩ -- 1NNN

def call : Pattern := ⟨0x2, none, none, none⟩ -- 2NNN

def skipEqualByte : Pattern := ⟨0x3, none, none, none⟩ -- 3XNN

def skipUnequalByte : Pattern := ⟨0x4, none, none, none⟩ -- 4XNN

def skipEqual : Pattern := ⟨0x5, none, none, some 0x0⟩ -- 5XY0

def skipUnequal : Pattern := ⟨0x9, none, none, some 0x0⟩ -- 9XY0

def jumpOffset : Pattern := ⟨0xB, none, none, none⟩ -- BNNN

def skipPressed : Pattern := ⟨0xE, none, some 0x9, some 0xE⟩ -- EX9E

def skipReleased : Pattern := ⟨0xE, none, some 0xA, some 0x1⟩ -- EXA1

def awaitKey : Pattern := ⟨0xF, none, some 0x0, some 0xA⟩ -- FX0A

end Pattern

end Chip8
