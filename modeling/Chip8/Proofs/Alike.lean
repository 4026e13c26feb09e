import Chip8.Proofs.Image
import Chip8.Proofs.Stack
import Chip8.Proofs.SupervisedRun
import Chip8.Supervisor.Action
import Mathlib.Data.List.Forall2

/-! What a program cannot see. Two machines are alike when they differ in nothing but the sound timer,
the redraw flag, the recorded fault, the bits of the program counter above the twelfth, and the key
wait of a machine that is not waiting. Every action keeps them alike and finds the same words, so none
of these ever comes to light.

* `Alike.perform`: one case for each instruction;
* `Alike.step`: a cycle, which also polls;
* `acts_alike`: every action, and by induction every run of actions. -/

namespace Chip8

/-- A push keeps twelve bits of the address. -/
theorem CallStack.push?_congr (s : CallStack) {a b : UInt16}
    (h : a.toNat % 0x1000 = b.toNat % 0x1000) : s.push? a = s.push? b := by
  have hlow : a &&& 0xFFF = b &&& 0xFFF := by
    rw [← UInt16.toNat_inj, toNat_low, toNat_low, h]
  rw [push?, push?, hlow]

namespace Machine

structure Alike (m m' : Machine) : Prop where
  rng : m.rng = m'.rng
  memory : m.memory = m'.memory
  pc : m.pc.toNat % 0x1000 = m'.pc.toNat % 0x1000
  screen : m.screen = m'.screen
  stack : m.stack = m'.stack
  delay : m.delay = m'.delay
  keys : m.keys = m'.keys
  registers : m.registers = m'.registers
  index : m.index = m'.index
  mode : m.mode = m'.mode
  wait : m.mode = .blocked → m.waitRegister = m'.waitRegister ∧ m.waitKeys = m'.waitKeys

namespace Alike

theorem refl (m : Machine) : m.Alike m :=
  ⟨rfl, rfl, rfl, rfl, rfl, rfl, rfl, rfl, rfl, rfl, fun _ => ⟨rfl, rfl⟩⟩

theorem symm {m m' : Machine} (h : m.Alike m') : m'.Alike m :=
  ⟨h.rng.symm, h.memory.symm, h.pc.symm, h.screen.symm, h.stack.symm, h.delay.symm, h.keys.symm,
    h.registers.symm, h.index.symm, h.mode.symm,
    fun hb => (h.wait (h.mode.trans hb)).imp Eq.symm Eq.symm⟩

theorem trans {m₁ m₂ m₃ : Machine} (h : m₁.Alike m₂) (h' : m₂.Alike m₃) : m₁.Alike m₃ :=
  ⟨h.rng.trans h'.rng, h.memory.trans h'.memory, h.pc.trans h'.pc, h.screen.trans h'.screen,
    h.stack.trans h'.stack, h.delay.trans h'.delay, h.keys.trans h'.keys,
    h.registers.trans h'.registers, h.index.trans h'.index, h.mode.trans h'.mode,
    fun hb => ⟨(h.wait hb).1.trans (h'.wait (h.mode ▸ hb)).1,
      (h.wait hb).2.trans (h'.wait (h.mode ▸ hb)).2⟩⟩

theorem equivalence : Equivalence Alike :=
  ⟨refl, symm, trans⟩

section Writes

variable {m m' : Machine} (h : m.Alike m')

include h

theorem fetch : m.fetch = m'.fetch := by
  rw [m.fetch_eq h.pc, m'.fetch_eq rfl, h.memory]

theorem register (x : Register) : m.register x = m'.register x := by
  rw [Machine.register, Machine.register, h.registers]

theorem keyDown (x : Register) : m.keyDown x = m'.keyDown x := by
  rw [Machine.keyDown, Machine.keyDown, h.keys, h.register]

theorem withMemory (memory : Memory) : { m with memory }.Alike { m' with memory } :=
  { h with memory := rfl }

theorem withRegisters (registers : Registers) : { m with registers }.Alike { m' with registers } :=
  { h with registers := rfl }

theorem withScreen (screen : Screen) (b b' : Bool) :
    { m with screen, redraw := b }.Alike { m' with screen, redraw := b' } :=
  { h with screen := rfl }

theorem withRedraw (b b' : Bool) : { m with redraw := b }.Alike { m' with redraw := b' } :=
  { h with mode := h.mode }

theorem withFault (f f' : Option Fault) : { m with fault := f }.Alike { m' with fault := f' } :=
  { h with mode := h.mode }

/-- A machine that is not waiting has no use for the keypad it remembers. -/
theorem withMode {mode : Mode} (hm : mode ≠ .blocked) (k k' : Keypad) :
    { m with mode, waitKeys := k }.Alike { m' with mode, waitKeys := k' } :=
  { h with mode := rfl, wait := fun hb => absurd hb hm }

theorem running : { m with mode := .running }.Alike { m' with mode := .running } :=
  h.withMode (by rintro ⟨⟩) m.waitKeys m'.waitKeys

theorem halted : { m with mode := .halted }.Alike { m' with mode := .halted } :=
  h.withMode (by rintro ⟨⟩) m.waitKeys m'.waitKeys

theorem advance (skip : Bool) : (m.advance skip).Alike (m'.advance skip) := by
  refine { h with pc := ?_ }
  have hpc := h.pc
  simp only [Machine.advance, UInt16.toNat_add]
  omega

theorem next : m.next.Alike m'.next :=
  h.advance false

theorem jumpTo (a : UInt16) : (m.jumpTo a).Alike (m'.jumpTo a) :=
  { h with pc := rfl }

theorem setRegister (x : Register) (byte : UInt8) :
    (m.setRegister x byte).Alike (m'.setRegister x byte) :=
  { h with registers := by rw [Machine.setRegister, Machine.setRegister, h.registers] }

theorem operate (op : Operation) (x y : Register) : (m.operate op x y).Alike (m'.operate op x y) := by
  simp only [Machine.operate, h.register]
  exact (h.setRegister _ _).setRegister _ _

theorem drawRandom (x : Register) (limit : UInt8) :
    (m.drawRandom x limit).Alike (m'.drawRandom x limit) := by
  simp only [Machine.drawRandom, h.rng]
  exact { h.setRegister x (m'.rng.byte &&& limit) with rng := rfl }

theorem drawSprite (x y height : Register) :
    (m.drawSprite x y height).Alike (m'.drawSprite x y height) := by
  simp only [Machine.drawSprite, h.memory, h.index, h.register, h.screen]
  exact (h.setRegister _ _).withScreen _ _ _

theorem addIndex (x : Register) : (m.addIndex x).Alike (m'.addIndex x) := by
  simp only [Machine.addIndex, h.index, h.register]
  exact { h.setRegister flagRegister _ with index := rfl }

theorem bumpIndex (x : Register) : (m.bumpIndex x).Alike (m'.bumpIndex x) :=
  { h with index := by rw [Machine.bumpIndex, Machine.bumpIndex, h.index] }

theorem storeDigits (x : Register) : (m.storeDigits x).Alike (m'.storeDigits x) := by
  have hm := h.withMemory (m.storeDigits x).memory
  simpa only [Machine.storeDigits, h.memory, h.index, h.register] using hm

theorem storeRegisters (x : Register) : (m.storeRegisters x).Alike (m'.storeRegisters x) := by
  have hm := h.withMemory (m.storeRegisters x).memory
  simpa only [Machine.storeRegisters, h.memory, h.index, h.registers] using hm

theorem loadRegisters (x : Register) : (m.loadRegisters x).Alike (m'.loadRegisters x) := by
  have hr := h.withRegisters (m.loadRegisters x).registers
  simpa only [Machine.loadRegisters, h.memory, h.index, h.register] using hr

theorem fillWaiting (hr : m.waitRegister = m'.waitRegister) (key : Register) :
    (m.fillWaiting key).Alike (m'.fillWaiting key) := by
  simp only [Machine.fillWaiting, hr]
  split
  · exact h.setRegister _ _
  · exact h

/-- The address that a call pushes has lost the bits in which the counters may differ. -/
theorem call (a : Address) : (m.call a).Alike (m'.call a) := by
  rw [Machine.call, Machine.call, h.stack, m'.stack.push?_congr h.pc]
  cases m'.stack.push? m'.pc with
  | none => exact h.halted.withFault _ _
  | some stack => exact { h with stack := rfl, pc := rfl }

theorem ret : m.ret.Alike m'.ret := by
  rw [Machine.ret, Machine.ret, h.stack]
  cases m'.stack.pop? with
  | none => exact h.halted.withFault _ _
  | some popped => exact next { h with stack := rfl, pc := rfl }

/-- A wait that begins writes both of its fields, so what they held before is gone. -/
theorem awaitKey (x : Register) : (m.awaitKey x).Alike (m'.awaitKey x) :=
  { h with mode := rfl, wait := fun _ => ⟨rfl, h.keys⟩ }

theorem perform (i : Instruction) : (m.perform i).Alike (m'.perform i) := by
  cases i with
  | clear => exact (h.withScreen _ _ _).next
  | ret => exact h.ret
  | jump a => exact h.jumpTo _
  | call a => exact h.call a
  | skipEqualByte x b | skipUnequalByte x b | skipEqual x y | skipUnequal x y =>
    simp only [Machine.perform, h.register]
    exact h.advance _
  | setByte x b => exact (h.setRegister x b).next
  | addByte x b =>
    simp only [Machine.perform, h.register]
    exact (h.setRegister x _).next
  | operate op x y => exact (h.operate op x y).next
  | setIndex a => exact next { h with index := rfl }
  | jumpOffset a =>
    simp only [Machine.perform, h.register]
    exact h.jumpTo _
  | random x b => exact (h.drawRandom x b).next
  | draw x y n => exact (h.drawSprite x y n).next
  | skipPressed x | skipReleased x =>
    simp only [Machine.perform, h.keyDown]
    exact h.advance _
  | readDelay x =>
    simp only [Machine.perform, h.delay]
    exact (h.setRegister x _).next
  | awaitKey x => exact h.awaitKey x
  | setDelay x => exact next { h with delay := h.register x }
  | setSound x => exact next { h with mode := h.mode }
  | addIndex x => exact (h.addIndex x).next
  | glyph x =>
    simp only [Machine.perform, h.register]
    exact next { h with index := rfl }
  | digits x => exact (h.storeDigits x).next
  | store x => exact ((h.storeRegisters x).bumpIndex x).next
  | load x => exact ((h.loadRegisters x).bumpIndex x).next

theorem execute (f : Fields) : (m.execute f).Alike (m'.execute f) := by
  rw [Machine.execute, Machine.execute]
  cases Instruction.ofFields? f with
  | none => exact (h.withFault _ _).next
  | some i => exact (h.withFault _ _).perform i

/-- Both remember the keypad of the previous poll, so they see the same press. -/
theorem step_of_blocked (hb : m.mode = .blocked) : m.step.Alike m'.step := by
  have hb' : m'.mode = .blocked := by rw [← h.mode, hb]
  obtain ⟨hr, hw⟩ := h.wait hb
  have hk : Keypad.firstPressed? m.keys m.waitKeys = Keypad.firstPressed? m'.keys m'.waitKeys := by
    rw [h.keys, hw]
  cases hp : Keypad.firstPressed? m'.keys m'.waitKeys with
  | none =>
    rw [step_of_waiting hb (hk.trans hp), step_of_waiting hb' hp]
    exact { h with wait := fun _ => ⟨hr, h.keys⟩ }
  | some key =>
    rw [step_of_woken hb (hk.trans hp), step_of_woken hb' hp]
    exact ((h.fillWaiting hr key).withMode (by rintro ⟨⟩) _ _).next

theorem step : m.step.Alike m'.step := by
  by_cases hr : m.mode = .running
  · have hr' : m'.mode = .running := by rw [← h.mode, hr]
    rw [step_of_running hr, step_of_running hr', h.fetch]
    exact h.execute _
  by_cases hb : m.mode = .blocked
  · exact h.step_of_blocked hb
  · rw [step_of_idle hr hb, step_of_idle (h.mode ▸ hr) (h.mode ▸ hb)]
    exact h

/-! ## Inputs, writes and loads -/

theorem setKey (key : Register) (down : Bool) : (m.setKey key down).Alike (m'.setKey key down) :=
  { h with keys := by rw [Machine.setKey, Machine.setKey, h.keys] }

theorem setKeys (keys : Keypad) : (m.setKeys keys).Alike (m'.setKeys keys) :=
  { h with keys := rfl }

theorem tick : m.tick.Alike m'.tick :=
  { h with delay := by rw [Machine.tick, Machine.tick, h.delay] }

theorem loaded (image : List UInt8) : (m.loaded image).Alike (m'.loaded image) := by
  have hm := (h.withMemory (withImage m'.memory image)).jumpTo (UInt16.ofNat programStart)
  simpa only [Machine.loaded, Machine.jumpTo, h.memory] using hm

end Writes

end Alike

/-- Both are refused for the same reason, or both give machines that are alike. -/
inductive AlikeResults : Except Error Machine → Except Error Machine → Prop
  | refused (e : Error) : AlikeResults (.error e) (.error e)
  | accepted {m m' : Machine} (h : m.Alike m') : AlikeResults (.ok m) (.ok m')

namespace Alike

variable {m m' : Machine} (h : m.Alike m')

include h

theorem input? (i : Input) : AlikeResults (m.input? i) (m'.input? i) := by
  cases i with
  | key key pressed =>
    rw [Machine.input?, Machine.input?]
    cases Argument.key key with
    | error e => exact .refused e
    | ok k => exact .accepted (h.setKey k _)
  | keypad states =>
    rw [Machine.input?, Machine.input?]
    cases Argument.keypad states with
    | error e => exact .refused e
    | ok keys => exact .accepted (h.setKeys keys)
  | release => exact .accepted (h.setKeys _)
  | tick => exact .accepted h.tick

theorem write (address : Int) (data : ProgramData) :
    AlikeResults (m.write address data) (m'.write address data) := by
  rw [Machine.write, Machine.write]
  cases data.image with
  | error e => exact .refused e
  | ok image =>
    simp only [Supervisor.ok_bind, writeImage, h.memory]
    split
    · exact .refused _
    · exact .accepted (h.withMemory _)

theorem load (data : ProgramData) : AlikeResults (m.load data) (m'.load data) := by
  rw [Machine.load, Machine.load]
  cases data.image with
  | error e => exact .refused e
  | ok image =>
    rw [Supervisor.ok_bind, Supervisor.ok_bind]
    by_cases hl : image.length ≤ maxProgramSize
    · rw [loadImage_of_le m hl, loadImage_of_le m' hl]
      exact .accepted (h.loaded image)
    · rw [loadImage, loadImage, if_pos (Nat.lt_of_not_le hl), if_pos (Nat.lt_of_not_le hl)]
      exact .refused _

end Alike

end Machine

namespace Supervisor

/-- The same answer, unless it is the redraw flag that was asked for. -/
inductive SameAnswer : Except Error Answer → Except Error Answer → Prop
  | same (r : Except Error Answer) : SameAnswer r r
  | flags (b b' : Bool) : SameAnswer (.ok (.flag b)) (.ok (.flag b'))

structure AlikeActs (r r' : Supervisor × Except Error Answer) : Prop where
  machine : r.1.machine.Alike r'.1.machine
  answer : SameAnswer r.2 r'.2

section Acts

variable {s t : Supervisor} (h : s.machine.Alike t.machine)

include h

theorem put_alike {r r' : Except Error Machine} (hr : Machine.AlikeResults r r') :
    AlikeActs (s.put r) (t.put r') := by
  cases hr with
  | refused e => exact ⟨h, .same _⟩
  | accepted hm => exact ⟨hm, .same _⟩

theorem halt_alike : AlikeActs (s.answer .halt) (t.answer .halt) := by
  simp only [answer, replying, halt, isHalted, modeName, h.mode]
  by_cases hh : t.machine.mode = .halted
  · simp only [hh, decide_true, ↓reduceIte]
    exact ⟨h, .same _⟩
  · simp only [hh, decide_false, Bool.false_eq_true, ↓reduceIte]
    cases t.machine.mode.name? with
    | none => exact ⟨h, .same _⟩
    | some name => exact ⟨h.halted, .same _⟩

theorem resume_alike : AlikeActs (s.answer .resume) (t.answer .resume) := by
  refine ⟨?_, .same _⟩
  rw [answer, answer, machine_resume, machine_resume, h.mode]
  by_cases hh : t.machine.mode = .halted
  · rw [if_pos hh, if_pos hh]
    exact h.running.withFault none none
  · rw [if_neg hh, if_neg hh]
    exact h

theorem act_alike (a : Action) : AlikeActs (s.act a) (t.act a) := by
  cases a with
  | step =>
    refine ⟨h.step, ?_⟩
    rw [act, act, h.fetch]
    exact .same _
  | input i => exact put_alike h (h.input? i)
  | write address data => exact put_alike h (h.write address data)
  | load data => exact put_alike h (h.load data)
  | halt => exact halt_alike h
  | resume => exact resume_alike h
  | consumeRedraw =>
    refine ⟨?_, .flags _ _⟩
    rw [act, act, answer, answer, machine_consumeRedraw, machine_consumeRedraw]
    exact h.withRedraw false false

end Acts

/-- What becomes of two machines under the same actions. -/
structure RunAlike (s t : Supervisor) : Prop where
  word : s.machine.fetch = t.machine.fetch
  once : ∀ a, AlikeActs (s.act a) (t.act a)
  machines : ∀ actions, (s.actAll actions).1.machine.Alike (t.actAll actions).1.machine
  answers : ∀ actions, List.Forall₂ SameAnswer (s.actAll actions).2 (t.actAll actions).2

theorem actAll_alike {s t : Supervisor} (h : s.machine.Alike t.machine) (actions : List Action) :
    (s.actAll actions).1.machine.Alike (t.actAll actions).1.machine ∧
      List.Forall₂ SameAnswer (s.actAll actions).2 (t.actAll actions).2 := by
  induction actions generalizing s t with
  | nil => exact ⟨h, .nil⟩
  | cons a rest ih =>
    have ha := act_alike h a
    obtain ⟨hm, hr⟩ := ih ha.machine
    exact ⟨hm, .cons ha.answer hr⟩

theorem run_alike {s t : Supervisor} (h : s.machine.Alike t.machine) : s.RunAlike t where
  word := h.fetch
  once := act_alike h
  machines actions := (actAll_alike h actions).1
  answers actions := (actAll_alike h actions).2

/-- A machine at power-on with marks that its program cannot see. -/
def marked : Supervisor :=
  { blankStart with
    strict := true
    machine := { blankStart.machine with
      pc := 0x1200, sound := 7, redraw := true, fault := some .stackOverflow,
      waitRegister := 5, waitKeys := Vector.replicate 16 true } }

theorem run_alike_marked :
    blankStart.machine ≠ marked.machine ∧ blankStart.machine.Alike marked.machine ∧
      blankStart.RunAlike marked := by
  have h : blankStart.machine.Alike marked.machine :=
    ⟨rfl, rfl, by decide, rfl, rfl, rfl, rfl, rfl, rfl, rfl, by rintro ⟨⟩⟩
  refine ⟨?_, h, run_alike h⟩
  intro he
  exact absurd (congrArg Machine.sound he) (by decide)

end Supervisor

end Chip8
