import Chip8.Argument
import Chip8.Log.Journal
import Chip8.Machine.Cycle
import Chip8.Machine.Load

/-! A supervised machine. The supervisor drives one machine for a host: it counts the cycles that ran,
keeps a journal, and turns the faults that the machine records into errors. Every operation gives the
new supervisor whether it succeeds or not, since a step that fails has happened all the same. -/

namespace Chip8

structure Supervisor where
  machine : Machine
  key : Random.Key
  strict : Bool
  cycles : Nat := 0
  journal : Journal

namespace Supervisor

/-- The name of the mode the machine is in. -/
def modeName (s : Supervisor) : Except Error String :=
  match s.machine.mode.name? with
  | some name => .ok name
  | none => .error .modeWithoutName

def note (s : Supervisor) (level : Level) (notice : Notice) : Supervisor :=
  { s with journal := s.journal.note level notice }

def isHalted (s : Supervisor) : Bool := s.machine.mode = .halted

/-- Back to power-on; the tally of faults goes on. -/
def reset (s : Supervisor) : Supervisor :=
  { s with machine := .initial s.key, cycles := 0 }.note .debug .machineReset

/-- The journal is asked for only once the seed is known to be a seed. -/
def create (seed : Value) (strict : Bool) (journal : Except Error Journal) :
    Except Error Supervisor := do
  let seed ← Argument.seed seed
  let journal ← journal
  let key ← Argument.randomKey seed
  return { machine := .initial key, key, strict, journal : Supervisor }.reset

/-- A program that does not fit, or is none, leaves no trace. -/
def load (s : Supervisor) (data : ProgramData) (source : Option String) :
    Supervisor × Except Error Unit :=
  let loaded : Except Error (Nat × Machine) := do
    let image ← data.image
    return (image.length, ← s.machine.loadImage image)
  match loaded with
  | .ok (size, machine) =>
    let journal := s.journal.noteLoad size Machine.programStart source
    ({ s with machine, journal }, .ok ())
  | .error e => (s, .error e)

/-- Faults are logged as warnings, and as errors where there is no way on. -/
def faultLevel (f : Fault) : Level :=
  if f.isStackFault then .error else .warning

/-- A fault of the instruction `word` at `pc`: counted and logged in any case, and an error unless it
is an unknown word on a machine that is not strict. -/
def report (s : Supervisor) (fault : Fault) (pc word : UInt16) :
    Supervisor × Except Error UInt16 :=
  let s := { s with
    journal := s.journal.noteFault (faultLevel fault).name fault.name pc.toNat word.toNat }
  if fault.isStackFault || s.strict then (s, .error (.execution fault pc word)) else (s, .ok word)

/-- The change of mode from `before` to the machine at hand, if there is one. -/
def noteChange (s : Supervisor) (before : Machine) : Supervisor :=
  if s.machine.mode = before.mode then s
  else
    match before.mode.name?, s.machine.mode.name? with
    | some old, some new => { s with journal := s.journal.noteMode old new before.pc.toNat }
    | _, _ => s

/-- One cycle; gives the word at the program counter before it. A halted machine stays as it is, and
only a machine that was running can have executed something faulty. -/
def step (s : Supervisor) : Supervisor × Except Error UInt16 :=
  let before := s.machine
  let word := before.fetch
  if before.mode = .halted then (s, .ok word)
  else
    let s := { s with machine := before.step, cycles := s.cycles + 1 }.noteChange before
    match s.machine.fault with
    | some fault => if before.mode = .running then s.report fault before.pc word else (s, .ok word)
    | none => (s, .ok word)

/-- Steps until the machine halts, an error stops it or `n` cycles ran, and counts on from `ran`. -/
def runFrom (s : Supervisor) (ran : Nat) : Nat → Supervisor × Except Error Nat
  | 0 => (s, .ok ran)
  | n + 1 =>
    if s.isHalted then (s, .ok ran)
    else
      match s.step with
      | (s, .ok _) => s.runFrom (ran + 1) n
      | (s, .error e) => (s, .error e)

/-- Up to `n` cycles; gives how many ran. -/
def run (s : Supervisor) (n : Int) : Supervisor × Except Error Nat :=
  match s.runFrom 0 n.toNat with
  | (s', .ok ran) =>
    (s'.note .debug (.ran ran (s'.journal.logger.now - s.journal.logger.now)), .ok ran)
  | (s', .error e) => (s', .error e)

def tick (s : Supervisor) : Supervisor :=
  { s with machine := s.machine.tick }

/-- A batch of cycles and one tick of the timers; an error in the batch takes the tick away. -/
def runFrame (s : Supervisor) (cycles : Nat) : Supervisor × Except Error Nat :=
  match s.run cycles with
  | (s, .ok ran) => (s.tick, .ok ran)
  | (s, .error e) => (s, .error e)

def setKey (s : Supervisor) (key : Register) (down : Bool) : Supervisor :=
  { s with machine := s.machine.setKey key down }

def releaseKeys (s : Supervisor) : Supervisor :=
  { s with machine := s.machine.releaseKeys }

/-- Stops a machine that is not halted. -/
def halt (s : Supervisor) : Supervisor × Except Error Unit :=
  if s.isHalted then (s, .ok ())
  else
    match s.modeName with
    | .error e => (s, .error e)
    | .ok old =>
      let journal := s.journal.noteMode old "HALTED" s.machine.pc.toNat
      ({ s with journal, machine := { s.machine with mode := .halted } }, .ok ())

/-- A halted machine runs again, and its fault is forgotten. After a stack fault the program counter
is still on the instruction that caused it. -/
def resume (s : Supervisor) : Supervisor :=
  if s.isHalted then
    let journal := s.journal.noteMode "HALTED" "RUNNING" s.machine.pc.toNat
    { s with journal, machine := { s.machine with mode := .running, fault := none } }
  else s

/-- The redraw flag, which is cleared by asking for it. -/
def consumeRedraw (s : Supervisor) : Supervisor × Bool :=
  if s.machine.redraw then ({ s with machine := { s.machine with redraw := false } }, true)
  else (s, false)

/-- Where a bound of a slice of `size` items lies; a negative one counts from the end. -/
def sliceBound (size : Nat) (i : Int) : Nat :=
  min (if i < 0 then i + size else i).toNat size

/-- The bytes from `address` up to `address + length`. -/
def readMemory (s : Supervisor) (address length : Int) : Except Error (List UInt8) :=
  if address < 0 ∨ Memory.size < address + length then .error (.windowRefused address length)
  else
    let start := sliceBound Memory.size address
    let stop := sliceBound Memory.size (address + length)
    .ok ((s.machine.memory.toList.take stop).drop start)

/-- A change of the log level; one that is refused leaves the old level. -/
def setLevel (s : Supervisor) (level : Level) : Supervisor :=
  { s with journal := { s.journal with logger := { s.journal.logger with threshold := level } } }

def noteSummary (s : Supervisor) (elapsed : Float) : Supervisor :=
  { s with journal := s.journal.noteSummary s.cycles elapsed }

end Supervisor

end Chip8
