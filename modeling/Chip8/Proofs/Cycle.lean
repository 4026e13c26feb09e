import Chip8.Machine.Cycle
import Chip8.Proofs.Reading

/-! What one cycle does to the stack, the mode, the fault and the key wait. Only calls, returns and key
waits touch these fields beyond clearing the fault, so `Outcome` names ten cases, and everything that
is proved about a cycle's control goes through `step_outcome`. -/

namespace Chip8

/-- Neither a call, a return nor a key wait. -/
def Instruction.Plain : Instruction → Prop
  | .call _ | .ret | .awaitKey _ => False
  | _ => True

namespace Machine

/-- The instruction that the word at the program counter spells. -/
def current? (m : Machine) : Option Instruction :=
  Instruction.ofFields? (Fields.ofWord m.fetch)

/-- The stack, the mode, the fault, the keypad and the key wait are as they were. -/
def SameControl (m m' : Machine) : Prop :=
  ∃ rng memory pc screen delay sound registers index redraw,
    m' = { m with rng, memory, pc, screen, delay, sound, registers, index, redraw }

namespace SameControl

theorem trans {m₁ m₂ m₃ : Machine} (h : SameControl m₁ m₂) (h' : SameControl m₂ m₃) :
    SameControl m₁ m₃ := by
  obtain ⟨_, _, _, _, _, _, _, _, _, rfl⟩ := h
  obtain ⟨_, _, _, _, _, _, _, _, _, rfl⟩ := h'
  exact ⟨_, _, _, _, _, _, _, _, _, rfl⟩

theorem stack {m m' : Machine} (h : SameControl m m') : m'.stack = m.stack := by
  obtain ⟨_, _, _, _, _, _, _, _, _, rfl⟩ := h
  rfl

theorem mode {m m' : Machine} (h : SameControl m m') : m'.mode = m.mode := by
  obtain ⟨_, _, _, _, _, _, _, _, _, rfl⟩ := h
  rfl

theorem fault {m m' : Machine} (h : SameControl m m') : m'.fault = m.fault := by
  obtain ⟨_, _, _, _, _, _, _, _, _, rfl⟩ := h
  rfl

theorem advance (m : Machine) (skip : Bool) : SameControl m (m.advance skip) :=
  ⟨_, _, _, _, _, _, _, _, _, rfl⟩

theorem next {m m' : Machine} (h : SameControl m m') : SameControl m m'.next :=
  h.trans (advance m' false)

theorem bumpIndex {m m' : Machine} (h : SameControl m m') (x : Register) :
    SameControl m (m'.bumpIndex x) :=
  h.trans ⟨_, _, _, _, _, _, _, _, _, rfl⟩

theorem storeRegisters (m : Machine) (x : Register) : SameControl m (m.storeRegisters x) :=
  ⟨_, _, _, _, _, _, _, _, _, rfl⟩

theorem loadRegisters (m : Machine) (x : Register) : SameControl m (m.loadRegisters x) :=
  ⟨_, _, _, _, _, _, _, _, _, rfl⟩

end SameControl

theorem perform_plain (m : Machine) {i : Instruction} (h : i.Plain) :
    SameControl m (m.perform i) := by
  cases i with
  | ret | call | awaitKey => exact h.elim
  | jump | jumpOffset => exact ⟨_, _, _, _, _, _, _, _, _, rfl⟩
  | skipEqualByte | skipUnequalByte | skipEqual | skipUnequal | skipPressed | skipReleased =>
    exact .advance _ _
  | store x => exact ((SameControl.storeRegisters m x).bumpIndex x).next
  | load x => exact ((SameControl.loadRegisters m x).bumpIndex x).next
  | _ => exact .next ⟨_, _, _, _, _, _, _, _, _, rfl⟩

inductive Outcome (m : Machine) : Machine → Prop
  | idle (hr : m.mode ≠ .running) (hb : m.mode ≠ .blocked) : Outcome m m
  | waiting (hb : m.mode = .blocked) (hk : Keypad.firstPressed? m.keys m.waitKeys = none) :
      Outcome m { m with waitKeys := m.keys }
  | woken (hb : m.mode = .blocked) (key : Register)
      (hk : Keypad.firstPressed? m.keys m.waitKeys = some key) (registers : Registers)
      (hw : m.fillWaiting key = { m with registers }) :
      Outcome m { m with
        registers, mode := .running, waitKeys := Keypad.released, pc := m.pc + 2 }
  | plain (hr : m.mode = .running) (i : Instruction) (hi : m.current? = some i) (hp : i.Plain)
      (m' : Machine) (hc : SameControl { m with fault := none } m') : Outcome m m'
  | unknown (hr : m.mode = .running) (hi : m.current? = none) :
      Outcome m { m with fault := some .unknownOpcode, pc := m.pc + 2 }
  | called (hr : m.mode = .running) (a : Address) (hi : m.current? = some (.call a)) (stack : CallStack)
      (hp : m.stack.push? m.pc = some stack) :
      Outcome m { m with fault := none, stack, pc := UInt16.ofNat a }
  | overflowed (hr : m.mode = .running) (a : Address) (hi : m.current? = some (.call a))
      (hd : m.stack.depth = 16) :
      Outcome m { m with mode := .halted, fault := some .stackOverflow }
  | returned (hr : m.mode = .running) (hi : m.current? = some .ret) (address : UInt16)
      (stack : CallStack) (hp : m.stack.pop? = some (address, stack)) :
      Outcome m { m with fault := none, stack, pc := address + 2 }
  | underflowed (hr : m.mode = .running) (hi : m.current? = some .ret) (hd : m.stack.depth = 0) :
      Outcome m { m with mode := .halted, fault := some .stackUnderflow }
  | awaiting (hr : m.mode = .running) (x : Register) (hi : m.current? = some (.awaitKey x)) :
      Outcome m { m with
        fault := none, mode := .blocked, waitRegister := UInt8.ofNat x, waitKeys := m.keys }

theorem step_of_running {m : Machine} (h : m.mode = .running) :
    m.step = m.execute (Fields.ofWord m.fetch) := by
  simp only [step, h]

theorem step_of_blocked {m : Machine} (h : m.mode = .blocked) : m.step = m.poll := by
  simp only [step, h]

theorem step_of_idle {m : Machine} (hr : m.mode ≠ .running) (hb : m.mode ≠ .blocked) :
    m.step = m := by
  unfold step
  split
  · exact absurd ‹_› hr
  · exact absurd ‹_› hb
  · rfl
  · rfl

theorem step_of_current {m : Machine} (h : m.mode = .running) {i : Instruction}
    (hi : m.current? = some i) : m.step = { m with fault := none }.perform i := by
  rw [current?] at hi
  simp only [step_of_running h, execute, hi]

theorem step_of_unknown {m : Machine} (h : m.mode = .running) (hi : m.current? = none) :
    m.step = { m with fault := none }.stepOver := by
  rw [current?] at hi
  simp only [step_of_running h, execute, hi]

theorem step_of_awaitKey {m : Machine} (hr : m.mode = .running) {x : Register}
    (hi : m.current? = some (.awaitKey x)) : m.step = { m with
      fault := none, mode := .blocked, waitRegister := UInt8.ofNat x, waitKeys := m.keys } := by
  rw [step_of_current hr hi, perform, awaitKey]

theorem step_of_call {m : Machine} (hr : m.mode = .running) {a : Address}
    (hi : m.current? = some (.call a)) {stack : CallStack} (hp : m.stack.push? m.pc = some stack) :
    m.step = { m with fault := none, stack, pc := UInt16.ofNat a } := by
  rw [step_of_current hr hi, perform, call]
  simp only [hp]
  rfl

theorem outcome_call {m : Machine} (hr : m.mode = .running) {a : Address}
    (hi : m.current? = some (.call a)) : Outcome m m.step := by
  cases hp : m.stack.push? m.pc with
  | none =>
    rw [step_of_current hr hi, perform, call]
    simp only [hp]
    exact .overflowed hr a hi ((CallStack.push?_eq_none_iff _ _).1 hp)
  | some stack =>
    rw [step_of_call hr hi hp]
    exact .called hr a hi stack hp

theorem step_of_ret {m : Machine} (hr : m.mode = .running) (hi : m.current? = some .ret)
    {address : UInt16} {stack : CallStack} (hp : m.stack.pop? = some (address, stack)) :
    m.step = { m with fault := none, stack, pc := address + 2 } := by
  rw [step_of_current hr hi, perform, ret]
  simp only [hp]
  rfl

theorem outcome_ret {m : Machine} (hr : m.mode = .running) (hi : m.current? = some .ret) :
    Outcome m m.step := by
  cases hp : m.stack.pop? with
  | none =>
    rw [step_of_current hr hi, perform, ret]
    simp only [hp]
    exact .underflowed hr hi ((CallStack.pop?_eq_none_iff _).1 hp)
  | some popped =>
    rw [step_of_ret hr hi hp]
    exact .returned hr hi popped.1 popped.2 hp

theorem outcome_running {m : Machine} (hr : m.mode = .running) : Outcome m m.step := by
  cases hi : m.current? with
  | none =>
    rw [step_of_unknown hr hi]
    exact .unknown hr hi
  | some i =>
    cases i with
    | call a => exact outcome_call hr hi
    | ret => exact outcome_ret hr hi
    | awaitKey x => rw [step_of_awaitKey hr hi]; exact .awaiting hr x hi
    | _ => rw [step_of_current hr hi]; exact .plain hr _ hi trivial _ (perform_plain _ trivial)

theorem fillWaiting_eq (m : Machine) (key : Register) :
    ∃ registers, m.fillWaiting key = { m with registers } := by
  unfold fillWaiting
  split <;> exact ⟨_, rfl⟩

theorem step_of_waiting {m : Machine} (hb : m.mode = .blocked)
    (hk : Keypad.firstPressed? m.keys m.waitKeys = none) :
    m.step = { m with waitKeys := m.keys } := by
  rw [step_of_blocked hb, poll, hk]

theorem step_of_woken {m : Machine} (hb : m.mode = .blocked) {key : Register}
    (hk : Keypad.firstPressed? m.keys m.waitKeys = some key) :
    m.step = { m.fillWaiting key with mode := .running, waitKeys := Keypad.released }.next := by
  rw [step_of_blocked hb, poll, hk]

theorem outcome_blocked {m : Machine} (hb : m.mode = .blocked) : Outcome m m.step := by
  cases hk : Keypad.firstPressed? m.keys m.waitKeys with
  | none =>
    rw [step_of_waiting hb hk]
    exact .waiting hb hk
  | some key =>
    obtain ⟨registers, hw⟩ := fillWaiting_eq m key
    rw [step_of_woken hb hk, hw]
    exact .woken hb key hk registers hw

theorem step_outcome (m : Machine) : Outcome m m.step := by
  by_cases hr : m.mode = .running
  · exact outcome_running hr
  by_cases hb : m.mode = .blocked
  · exact outcome_blocked hb
  rw [step_of_idle hr hb]
  exact .idle hr hb

end Machine

end Chip8
