import Chip8.Proofs.Cycle

/-! When a cycle faults, said without running it: by the word it would execute and the depth of the
stack. A stack fault halts the machine and changes nothing else, and nothing else halts it. -/

namespace Chip8.Machine

/-- The next cycle executes something that faults in the given way. -/
def Faults (m : Machine) : Fault → Prop
  | .unknownOpcode => m.mode = .running ∧ m.current? = none
  | .stackOverflow => m.mode = .running ∧ m.fetch.toNat / 0x1000 = 0x2 ∧ m.stack.depth = 16
  | .stackUnderflow => m.mode = .running ∧ m.fetch = 0x00EE ∧ m.stack.depth = 0

/-- The fault of the next cycle; a machine that does not execute anything has none. -/
def cycleFault? (m : Machine) : Option Fault :=
  if m.mode = .running then m.step.fault else none

theorem Faults.running {m : Machine} {f : Fault} (h : m.Faults f) : m.mode = .running := by
  cases f <;> exact h.1

theorem overflow_iff (m : Machine) :
    m.Faults .stackOverflow ↔
      m.mode = .running ∧ (∃ a, m.current? = some (.call a)) ∧ m.stack.depth = 16 := by
  rw [Faults, current?, Instruction.reads_call_iff]

theorem underflow_iff (m : Machine) :
    m.Faults .stackUnderflow ↔
      m.mode = .running ∧ m.current? = some .ret ∧ m.stack.depth = 0 := by
  rw [Faults, current?, Instruction.reads_ret_iff]

theorem fault_of_faults {m : Machine} {f : Fault} (h : m.Faults f) : m.step.fault = some f := by
  have hr := h.running
  cases f with
  | unknownOpcode => rw [step_of_unknown hr h.2]; rfl
  | stackOverflow =>
    obtain ⟨-, ⟨a, ha⟩, hd⟩ := (overflow_iff m).1 h
    rw [step_of_current hr ha, perform, call]
    simp only [(CallStack.push?_eq_none_iff m.stack m.pc).2 hd, haltWith]
  | stackUnderflow =>
    obtain ⟨-, hi, hd⟩ := (underflow_iff m).1 h
    rw [step_of_current hr hi, perform, ret]
    simp only [(CallStack.pop?_eq_none_iff m.stack).2 hd, haltWith]

theorem faults_of_fault {m : Machine} {f : Fault} (hr : m.mode = .running)
    (h : m.step.fault = some f) : m.Faults f := by
  have ho := step_outcome m
  generalize m.step = m' at ho h
  revert h
  cases ho with
  | idle h => exact absurd hr h
  | waiting h | woken h => rw [hr] at h; cases h
  | plain hr i hi hp m' hc => rw [hc.fault]; intro h; cases h
  | unknown hr hi => rintro ⟨⟩; exact ⟨hr, hi⟩
  | called | returned | awaiting => intro h; cases h
  | overflowed hr a hi hd => rintro ⟨⟩; exact (overflow_iff m).2 ⟨hr, ⟨a, hi⟩, hd⟩
  | underflowed hr hi hd => rintro ⟨⟩; exact (underflow_iff m).2 ⟨hr, hi, hd⟩

theorem cycleFault?_eq_some_iff (m : Machine) (f : Fault) : m.cycleFault? = some f ↔ m.Faults f := by
  unfold cycleFault?
  constructor
  · intro h
    split at h
    · exact faults_of_fault ‹_› h
    · cases h
  · intro h
    rw [if_pos h.running]
    exact fault_of_faults h

/-- A stack fault halts the machine where it is. -/
theorem step_of_stackFault {m : Machine} {f : Fault} (hf : f.isStackFault = true) (h : m.Faults f) :
    m.step = { m with mode := .halted, fault := some f } := by
  have hs := fault_of_faults h
  have ho := step_outcome m
  generalize m.step = m' at ho hs ⊢
  revert hs
  cases ho with
  | idle hr => exact absurd h.running hr
  | waiting hb | woken hb => rw [h.running] at hb; cases hb
  | plain hr i hi hp m' hc => rw [hc.fault]; intro hs; cases hs
  | unknown => rintro ⟨⟩; cases hf
  | called | returned | awaiting => intro hs; cases hs
  | overflowed | underflowed => rintro ⟨⟩; rfl

theorem mode_step_of_faults {m : Machine} {f : Fault} (hf : f.isStackFault = true) (h : m.Faults f) :
    m.step.mode = .halted := by
  rw [step_of_stackFault hf h]

/-- Only a stack fault halts a machine. -/
theorem mode_step_ne_halted {m : Machine} (h : m.mode ≠ .halted)
    (hf : ∀ f, m.Faults f → f.isStackFault = false) : m.step.mode ≠ .halted := by
  have ho := step_outcome m
  generalize m.step = m' at ho ⊢
  cases ho with
  | idle => exact h
  | waiting hb => exact h
  | woken => intro hm; cases hm
  | plain hr i hi hp m' hc => rw [hc.mode, hr]; intro hm; cases hm
  | unknown => exact h
  | called | returned => exact h
  | awaiting => intro hm; cases hm
  | overflowed hr a hi hd => cases hf _ ((overflow_iff m).2 ⟨hr, ⟨a, hi⟩, hd⟩)
  | underflowed hr hi hd => cases hf _ ((underflow_iff m).2 ⟨hr, hi, hd⟩)

/-! ## Runs -/

theorem step_of_halted {m : Machine} (h : m.mode = .halted) : m.step = m := by
  apply step_of_idle <;> rw [h] <;> intro hm <;> cases hm

theorem run_of_halted {m : Machine} (h : m.mode = .halted) (n : Nat) : m.run n = m := by
  induction n with
  | zero => rfl
  | succ n ih => rw [run, step_of_halted h, ih]

theorem not_faults_of_halted {m : Machine} (h : m.mode = .halted) (f : Fault) : ¬ m.Faults f := by
  intro hf
  have hr := hf.running
  rw [h] at hr
  cases hr

/-- How many of the next cycles find the machine not halted. -/
def liveCycles (m : Machine) (n : Nat) : Nat :=
  (List.range n).countP fun k => (m.run k).mode ≠ .halted

theorem liveCycles_succ (m : Machine) (n : Nat) :
    m.liveCycles (n + 1) = (if m.mode = .halted then 0 else 1) + m.step.liveCycles n := by
  rw [liveCycles, List.range_succ_eq_map, List.countP_cons, List.countP_map, Nat.add_comm]
  congr 1
  by_cases h : m.mode = .halted <;> simp [run, h]

theorem liveCycles_of_halted {m : Machine} (h : m.mode = .halted) (n : Nat) :
    m.liveCycles n = 0 := by
  simp [liveCycles, run_of_halted h, h]

end Chip8.Machine
