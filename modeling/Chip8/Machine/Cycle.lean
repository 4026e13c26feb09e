import Chip8.Machine.Execute

/-! Cycles and frames. A cycle executes, polls or does nothing, as the mode says; a frame is a number
of cycles and one tick of the timers. -/

namespace Chip8.Machine

/-- The word at the program counter; both bytes are read modulo the size of memory. -/
def fetch (m : Machine) : UInt16 :=
  UInt16.ofNat (256 * (m.memory.read m.pc.toNat).toNat + (m.memory.read (m.pc.toNat + 1)).toNat)

/-- A pending wait that names no register is over without a write. -/
def fillWaiting (m : Machine) (key : Register) : Machine :=
  if h : m.waitRegister.toNat < 16 then m.setRegister ⟨m.waitRegister.toNat, h⟩ (UInt8.ofNat key)
  else m

/-- A key that is down now and was up at the previous poll ends the wait; the lowest such key
counts. Otherwise the keypad is remembered, so a key let go and pressed again counts as pressed. -/
def poll (m : Machine) : Machine :=
  match Keypad.firstPressed? m.keys m.waitKeys with
  | some key => { m.fillWaiting key with mode := .running, waitKeys := Keypad.released }.next
  | none => { m with waitKeys := m.keys }

def step (m : Machine) : Machine :=
  match m.mode with
  | .running => m.execute (Fields.ofWord m.fetch)
  | .blocked => m.poll
  | .halted | .reserved _ => m

def run (m : Machine) : Nat → Machine
  | 0 => m
  | n + 1 => m.step.run n

def frame (m : Machine) (cycles : Nat) : Machine :=
  (m.run cycles).tick

/-- A number of frames, and the screen after each. -/
def frames (m : Machine) (cycles : Nat) : Nat → Machine × List Screen
  | 0 => (m, [])
  | count + 1 =>
    let m' := m.frame cycles
    let rest := m'.frames cycles count
    (rest.1, m'.screen :: rest.2)

end Chip8.Machine
