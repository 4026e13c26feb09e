import Chip8.CallStack
import Chip8.Fault
import Chip8.Keypad
import Chip8.Memory
import Chip8.Random
import Chip8.Screen

/-! The complete state of one machine. -/

namespace Chip8

/-- A running machine fetches and executes, a blocked one polls its keypad, a halted one does
nothing. The codes above these three are reserved; a machine set to one of them does nothing either. -/
inductive Mode
  | running | blocked | halted
  | reserved (extra : Fin 253)
deriving DecidableEq, Repr

namespace Mode

def code : Mode → UInt8
  | running => 0
  | blocked => 1
  | halted => 2
  | reserved e => UInt8.ofNat (e.val + 3)

def ofCode (code : UInt8) : Mode :=
  if code = 0 then running
  else if code = 1 then blocked
  else if code = 2 then halted
  else reserved (Fin.ofNat 253 (code.toNat - 3))

def name? : Mode → Option String
  | running => some "RUNNING"
  | blocked => some "BLOCKED_ON_KEY"
  | halted => some "HALTED"
  | reserved _ => none

theorem code_ofCode (c : UInt8) : (ofCode c).code = c := by
  unfold ofCode
  split
  · simp_all [code]
  split
  · simp_all [code]
  split
  · simp_all [code]
  · have h := c.toNat_lt
    have h0 : c.toNat ≠ 0 := fun e => ‹¬c = 0› (UInt8.toNat_inj.1 e)
    have h1 : c.toNat ≠ 1 := fun e => ‹¬c = 1› (UInt8.toNat_inj.1 e)
    have h2 : c.toNat ≠ 2 := fun e => ‹¬c = 2› (UInt8.toNat_inj.1 e)
    apply UInt8.toNat_inj.1
    simp only [code, Fin.val_ofNat, UInt8.toNat_ofNat']
    omega

end Mode

abbrev Registers := Vector UInt8 16

/-- A key wait remembers the register it will fill and the keypad of the previous poll. -/
structure Machine where
  rng : Random.Key
  memory : Memory
  pc : UInt16
  screen : Screen
  stack : CallStack
  delay : UInt8
  sound : UInt8
  keys : Keypad
  registers : Registers
  index : UInt16
  redraw : Bool
  mode : Mode
  waitRegister : UInt8
  waitKeys : Keypad
  fault : Option Fault
deriving DecidableEq

namespace Machine

/-- Where programs are loaded and start. -/
def programStart : Nat := 0x200

/-- The machine at power-on: the font in memory, all else zero. -/
def initial (key : Random.Key) : Machine where
  rng := key
  memory := Memory.initial
  pc := UInt16.ofNat programStart
  screen := Screen.blank
  stack := CallStack.empty
  delay := 0
  sound := 0
  keys := Keypad.released
  registers := Vector.replicate 16 0
  index := 0
  redraw := false
  mode := .running
  waitRegister := 0
  waitKeys := Keypad.released
  fault := none

/-- Both timers count down to zero and stay there. -/
def tick (m : Machine) : Machine :=
  { m with
    delay := if 0 < m.delay then m.delay - 1 else m.delay
    sound := if 0 < m.sound then m.sound - 1 else m.sound }

def sounding (m : Machine) : Bool := decide (0 < m.sound)

def setKey (m : Machine) (key : Register) (down : Bool) : Machine :=
  { m with keys := m.keys.set key.val down (Register.val_lt key) }

def setKeys (m : Machine) (keys : Keypad) : Machine :=
  { m with keys }

def releaseKeys (m : Machine) : Machine :=
  m.setKeys Keypad.released

def register (m : Machine) (x : Register) : UInt8 := m.registers.get x

def setRegister (m : Machine) (x : Register) (byte : UInt8) : Machine :=
  { m with registers := m.registers.set x.val byte (Register.val_lt x) }

theorem register_eq (m : Machine) (x : Register) : m.register x = m.registers[x.val] := rfl

@[simp]
theorem register_setRegister (m : Machine) (x y : Register) (byte : UInt8) :
    (m.setRegister x byte).register y = if x = y then byte else m.register y := by
  simp only [register_eq, setRegister, Vector.getElem_set, Fin.ext_iff]

end Machine

end Chip8
