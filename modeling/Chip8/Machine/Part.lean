import Chip8.Instruction
import Chip8.Instruction.Pattern
import Chip8.Machine

/-! The parts of a machine, and for each the table of the words that may change it. A register is a part
of its own: a pattern that writes `VX` stands in its table with the register in the place of `X`. -/

namespace Chip8

inductive Part
  | memory | screen | redraw | stack | delay | sound | keys | random | wait | index
  | register (r : Register)

namespace Part

/-- The part is on both machines the same. -/
def Same (m m' : Machine) : Part → Prop
  | memory => m'.memory = m.memory
  | screen => m'.screen = m.screen
  | redraw => m'.redraw = m.redraw
  | stack => m'.stack = m.stack
  | delay => m'.delay = m.delay
  | sound => m'.sound = m.sound
  | keys => m'.keys = m.keys
  | random => m'.rng = m.rng
  | wait => m'.waitRegister = m.waitRegister ∧ m'.waitKeys = m.waitKeys
  | index => m'.index = m.index
  | register r => m'.register r = m.register r

/-- The patterns with a result for `VX`. -/
def resultPatterns : List Pattern :=
  [⟨0x6, none, none, none⟩, -- 6XNN
    ⟨0x7, none, none, none⟩, -- 7XNN
    ⟨0xC, none, none, none⟩, -- CXNN
    ⟨0xF, none, some 0x0, some 0x7⟩] ++ -- FX07
  [0x0, 0x1, 0x2, 0x3, 0x4, 0x5, 0x6, 0x7, 0xE].map fun n => ⟨0x8, none, none, some n⟩ -- 8XY0 to 8XYE

/-- The patterns that report something in `VF`. -/
def flagPatterns : List Pattern :=
  [⟨0xD, none, none, none⟩, -- DXYN
    ⟨0xF, none, some 0x1, some 0xE⟩] ++ -- FX1E
  [0x4, 0x5, 0x6, 0x7, 0xE].map fun n => ⟨0x8, none, none, some n⟩ -- 8XY4 to 8XYE

/-- `FX65`, which writes `V0` to `VX`. -/
def loadPattern : Pattern := ⟨0xF, none, some 0x6, some 0x5⟩

/-- The words that may change a part. -/
def writers : Part → List Pattern
  | memory =>
    [⟨0xF, none, some 0x3, some 0x3⟩, -- FX33
      ⟨0xF, none, some 0x5, some 0x5⟩] -- FX55
  | screen | redraw =>
    [⟨0x0, some 0x0, some 0xE, some 0x0⟩, -- 00E0
      ⟨0xD, none, none, none⟩] -- DXYN
  | stack => [.call, .ret]
  | delay => [⟨0xF, none, some 0x1, some 0x5⟩] -- FX15
  | sound => [⟨0xF, none, some 0x1, some 0x8⟩] -- FX18
  | keys => []
  | random => [⟨0xC, none, none, none⟩] -- CXNN
  | wait => [.awaitKey]
  | index =>
    [⟨0xA, none, none, none⟩, -- ANNN
      ⟨0xF, none, some 0x1, some 0xE⟩, -- FX1E
      ⟨0xF, none, some 0x2, some 0x9⟩, -- FX29
      ⟨0xF, none, some 0x5, some 0x5⟩, -- FX55
      ⟨0xF, none, some 0x6, some 0x5⟩] -- FX65
  | register r =>
    resultPatterns.map (·.withX r.val) ++
      ((List.range 16).filter (r.val ≤ ·)).map loadPattern.withX ++
      if r = flagRegister then flagPatterns else []

end Part

/-- The operation has something to report in `VF`. -/
def Operation.Reports : Operation → Prop
  | copy | or | and | xor => False
  | add | sub | shiftRight | subFrom | shiftLeft => True

/-- The parts that an instruction may write. -/
def Instruction.Writes : Instruction → Part → Prop
  | clear, part => part = .screen ∨ part = .redraw
  | ret, part | call _, part => part = .stack
  | setByte x _, part | addByte x _, part | readDelay x, part => part = .register x
  | operate op x _, part => part = .register x ∨ op.Reports ∧ part = .register flagRegister
  | setIndex _, part | glyph _, part => part = .index
  | random x _, part => part = .random ∨ part = .register x
  | draw _ _ _, part => (part = .screen ∨ part = .redraw) ∨ part = .register flagRegister
  | awaitKey _, part => part = .wait
  | setDelay _, part => part = .delay
  | setSound _, part => part = .sound
  | addIndex _, part => part = .index ∨ part = .register flagRegister
  | digits _, part => part = .memory
  | store _, part => part = .memory ∨ part = .index
  | load x, part => part = .index ∨ ∃ r : Register, r.val ≤ x.val ∧ part = .register r
  | jump _, _ | jumpOffset _, _ => False
  | skipEqualByte _ _, _ | skipUnequalByte _ _, _ | skipEqual _ _, _ | skipUnequal _ _, _ => False
  | skipPressed _, _ | skipReleased _, _ => False

end Chip8
