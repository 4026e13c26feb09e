import Chip8.Instruction.Operation
import Chip8.Machine
import Chip8.Screen.Sprite

/-! Executing one instruction. Each instruction sets the next program counter itself. The fault field
is cleared first, so it describes the instruction executed last and no other. -/

namespace Chip8.Machine

/-- Past this instruction, and past the next one too when `skip` holds. -/
def advance (m : Machine) (skip : Bool) : Machine :=
  { m with pc := m.pc + if skip then 4 else 2 }

def next (m : Machine) : Machine := m.advance false

def jumpTo (m : Machine) (address : UInt16) : Machine :=
  { m with pc := address }

/-- A stack fault stops the machine on the instruction that caused it. -/
def haltWith (m : Machine) (fault : Fault) : Machine :=
  { m with mode := .halted, fault := some fault }

def clearScreen (m : Machine) : Machine :=
  { m with screen := Screen.blank, redraw := true }

/-- The stack holds the address of the call itself, so a return goes on behind it. -/
def ret (m : Machine) : Machine :=
  match m.stack.pop? with
  | none => m.haltWith .stackUnderflow
  | some (address, stack) => ({ m with stack }.jumpTo address).next

def call (m : Machine) (target : Address) : Machine :=
  match m.stack.push? m.pc with
  | none => m.haltWith .stackOverflow
  | some stack => { m with stack }.jumpTo (UInt16.ofNat target)

/-- The flag is written before the result, so a result in `VF` is what stays there. -/
def operate (m : Machine) (op : Operation) (x y : Register) : Machine :=
  let r := op.apply (m.register x) (m.register y) (m.register flagRegister)
  (m.setRegister flagRegister r.2).setRegister x r.1

def drawRandom (m : Machine) (x : Register) (limit : UInt8) : Machine :=
  { m.setRegister x (m.rng.byte &&& limit) with rng := m.rng.next }

def drawSprite (m : Machine) (x y height : Register) : Machine :=
  let mask := Sprite.mask m.memory m.index.toNat (m.register x).toNat (m.register y).toNat height.val
  { m.setRegister flagRegister (Operation.bit (m.screen.meets mask)) with
    screen := m.screen.xor mask
    redraw := true }

def keyDown (m : Machine) (x : Register) : Bool :=
  m.keys.get (Register.ofNat (m.register x).toNat)

/-- The program counter stays on this instruction until a poll finds a key. -/
def awaitKey (m : Machine) (x : Register) : Machine :=
  { m with mode := .blocked, waitRegister := UInt8.ofNat x, waitKeys := m.keys }

/-- The flag reports an index beyond the top of memory. -/
def addIndex (m : Machine) (x : Register) : Machine :=
  let total := m.index.toNat + (m.register x).toNat
  { m.setRegister flagRegister (Operation.bit (0xFFF < total)) with index := UInt16.ofNat total }

/-- Hundreds, tens and ones of a byte. -/
def decimalDigits (byte : UInt8) (k : Nat) : UInt8 :=
  match k with
  | 0 => byte / 100
  | 1 => byte / 10 % 10
  | _ => byte % 10

def storeDigits (m : Machine) (x : Register) : Machine :=
  { m with memory := m.memory.overlay m.index.toNat 3 (decimalDigits (m.register x)) }

/-- Behind the window that a store or a load of `V0` to `VX` covers. -/
def bumpIndex (m : Machine) (x : Register) : Machine :=
  { m with index := UInt16.ofNat (m.index.toNat + x.val + 1) }

def storeRegisters (m : Machine) (x : Register) : Machine :=
  { m with memory := m.memory.overlay m.index.toNat (x.val + 1) fun k => m.registers.toList.getD k 0 }

def loadRegisters (m : Machine) (x : Register) : Machine :=
  { m with registers := Vector.ofFn fun k =>
      if k.val ≤ x.val then m.memory.read (m.index.toNat + k.val) else m.register k }

/-- What an instruction does to a machine whose fault field is clear. -/
def perform (m : Machine) : Instruction → Machine
  | .clear => m.clearScreen.next
  | .ret => m.ret
  | .jump a => m.jumpTo (UInt16.ofNat a)
  | .call a => m.call a
  | .skipEqualByte x b => m.advance (m.register x == b)
  | .skipUnequalByte x b => m.advance (m.register x != b)
  | .skipEqual x y => m.advance (m.register x == m.register y)
  | .setByte x b => (m.setRegister x b).next
  | .addByte x b => (m.setRegister x (m.register x + b)).next
  | .operate op x y => (m.operate op x y).next
  | .skipUnequal x y => m.advance (m.register x != m.register y)
  | .setIndex a => { m with index := UInt16.ofNat a }.next
  | .jumpOffset a => m.jumpTo (UInt16.ofNat (a.val + (m.register (Register.ofNat 0)).toNat))
  | .random x b => (m.drawRandom x b).next
  | .draw x y n => (m.drawSprite x y n).next
  | .skipPressed x => m.advance (m.keyDown x)
  | .skipReleased x => m.advance (!m.keyDown x)
  | .readDelay x => (m.setRegister x m.delay).next
  | .awaitKey x => m.awaitKey x
  | .setDelay x => { m with delay := m.register x }.next
  | .setSound x => { m with sound := m.register x }.next
  | .addIndex x => (m.addIndex x).next
  | .glyph x => { m with index := UInt16.ofNat (5 * (m.register x).toNat) }.next
  | .digits x => (m.storeDigits x).next
  | .store x => ((m.storeRegisters x).bumpIndex x).next
  | .load x => ((m.loadRegisters x).bumpIndex x).next

/-- A word that spells no instruction is noted and stepped over. -/
def stepOver (m : Machine) : Machine :=
  { m with fault := some .unknownOpcode }.next

def execute (m : Machine) (f : Fields) : Machine :=
  match Instruction.ofFields? f with
  | some i => { m with fault := none }.perform i
  | none => { m with fault := none }.stepOver

end Chip8.Machine
