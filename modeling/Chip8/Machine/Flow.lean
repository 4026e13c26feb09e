import Chip8.Instruction.Pattern
import Chip8.Machine.Execute

/-! Where a program goes on behind a word, read off the word, the registers, the keypad and the stack
before it is executed. -/

namespace Chip8

/-- Two skips with the same operands and opposite conditions. -/
inductive Opposed : UInt16 → UInt16 → Prop
  | byte {w w' : UInt16} (x : Register) (b : UInt8)
      (h : (Instruction.skipEqualByte x b).encode = w.toNat) -- 3XNN
      (h' : (Instruction.skipUnequalByte x b).encode = w'.toNat) : Opposed w w' -- 4XNN
  | registers {w w' : UInt16} (x y : Register)
      (h : (Instruction.skipEqual x y).encode = w.toNat) -- 5XY0
      (h' : (Instruction.skipUnequal x y).encode = w'.toNat) : Opposed w w' -- 9XY0
  | key {w w' : UInt16} (x : Register)
      (h : (Instruction.skipPressed x).encode = w.toNat) -- EX9E
      (h' : (Instruction.skipReleased x).encode = w'.toNat) : Opposed w w' -- EXA1

namespace Machine

/-- The word is a skip, and the condition of the skip holds. -/
inductive Skips (m : Machine) (w : UInt16) : Prop
  | equalByte (x : Register) (b : UInt8) (h : (Instruction.skipEqualByte x b).encode = w.toNat)
      (hc : m.register x = b)
  | unequalByte (x : Register) (b : UInt8) (h : (Instruction.skipUnequalByte x b).encode = w.toNat)
      (hc : m.register x ≠ b)
  | equal (x y : Register) (h : (Instruction.skipEqual x y).encode = w.toNat)
      (hc : m.register x = m.register y)
  | unequal (x y : Register) (h : (Instruction.skipUnequal x y).encode = w.toNat)
      (hc : m.register x ≠ m.register y)
  | pressed (x : Register) (h : (Instruction.skipPressed x).encode = w.toNat)
      (hc : m.keys.get (Register.ofNat (m.register x).toNat) = true)
  | released (x : Register) (h : (Instruction.skipReleased x).encode = w.toNat)
      (hc : m.keys.get (Register.ofNat (m.register x).toNat) = false)

/-- The word is one that a machine stops at: a key wait, or a call or return that the stack forbids. -/
def StopsAt (m : Machine) (w : UInt16) : Prop :=
  Pattern.awaitKey.Matches w.toNat ∨ (Pattern.call.Matches w.toNat ∧ m.stack.depth = 16) ∨
    (Pattern.ret.Matches w.toNat ∧ m.stack.depth = 0)

/-- The patterns that set the program counter to something of their own, or leave it. -/
def redirections : List Pattern :=
  [.ret, .jump, .call, .jumpOffset, .awaitKey]

/-- Behind the word the program counter is `pc`. -/
inductive Leads (m : Machine) (w : UInt16) : UInt16 → Prop
  | jump (a : Address) (h : (Instruction.jump a).encode = w.toNat) : Leads m w (UInt16.ofNat a.val)
  | jumpOffset (a : Address) (h : (Instruction.jumpOffset a).encode = w.toNat) :
      Leads m w (UInt16.ofNat (a.val + (m.register (Register.ofNat 0)).toNat))
  | call (a : Address) (h : (Instruction.call a).encode = w.toNat) (hd : m.stack.depth < 16) :
      Leads m w (UInt16.ofNat a.val)
  | ret (h : Instruction.ret.encode = w.toNat) (hd : 0 < m.stack.depth) :
      Leads m w (m.stack.top + 2)
  | stop (h : m.StopsAt w) : Leads m w m.pc
  | skip (h : m.Skips w) : Leads m w (m.pc + 4)
  | next (hr : ¬ Pattern.Among redirections w.toNat) (hs : ¬ m.Skips w) : Leads m w (m.pc + 2)

end Machine

end Chip8
