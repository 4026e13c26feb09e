import Chip8.Proofs.Cycle
import Chip8.Proofs.Reachable
import Chip8.Proofs.Stack

/-! The invariant of reachable machines. It ties the stack, the mode, the fault and the key wait
together: a stack fault is only ever seen on a halted machine whose stack is still as full or as
empty as the fault says, and a machine that waits for a key has no fault and a register to fill. -/

namespace Chip8.Machine

structure Sound (m : Machine) : Prop where
  depth : m.stack.depth ≤ 16
  stack : m.stack.Tidy
  mode : m.mode = .running ∨ m.mode = .blocked ∨ m.mode = .halted
  fault : m.fault = none ∨ m.fault = some .unknownOpcode ∨ m.fault = some .stackOverflow ∨
    m.fault = some .stackUnderflow
  overflow : m.fault = some .stackOverflow → m.mode = .halted ∧ m.stack.depth = 16
  underflow : m.fault = some .stackUnderflow → m.mode = .halted ∧ m.stack.depth = 0
  blocked : m.mode = .blocked → m.fault = none ∧ m.waitRegister.toNat < 16

theorem fault_cases (f : Option Fault) :
    f = none ∨ f = some .unknownOpcode ∨ f = some .stackOverflow ∨ f = some .stackUnderflow := by
  cases f with
  | none => exact .inl rfl
  | some f => cases f <;> simp

theorem Sound.of_running {m : Machine} (hs : m.stack.Tidy) (hm : m.mode = .running)
    (ho : m.fault ≠ some .stackOverflow) (hu : m.fault ≠ some .stackUnderflow) : m.Sound where
  depth := m.stack.depth_le
  stack := hs
  mode := .inl hm
  fault := fault_cases m.fault
  overflow h := absurd h ho
  underflow h := absurd h hu
  blocked h := by
    rw [hm] at h
    cases h

theorem sound_initial (key : Random.Key) : (initial key).Sound :=
  .of_running CallStack.tidy_empty rfl (by rintro ⟨⟩) (by rintro ⟨⟩)

/-- Only the stack, the mode, the fault and the register of the key wait count. -/
theorem Sound.congr {m m' : Machine} (h : m.Sound) (hs : m'.stack = m.stack) (hm : m'.mode = m.mode)
    (hf : m'.fault = m.fault) (hw : m'.waitRegister = m.waitRegister) : m'.Sound := by
  obtain ⟨depth, stack, mode, fault, overflow, underflow, blocked⟩ := h
  rw [← hs] at depth stack overflow underflow
  rw [← hm] at mode overflow underflow blocked
  rw [← hf] at fault overflow underflow blocked
  rw [← hw] at blocked
  exact ⟨depth, stack, mode, fault, overflow, underflow, blocked⟩

theorem Sound.step {m : Machine} (h : m.Sound) : m.step.Sound := by
  have ho := step_outcome m
  generalize m.step = m' at ho ⊢
  cases ho with
  | idle => exact h
  | waiting => exact h.congr rfl rfl rfl rfl
  | woken hb key hk registers =>
    apply Sound.of_running
    · exact h.stack
    · rfl
    · rw [(h.blocked hb).1]; rintro ⟨⟩
    · rw [(h.blocked hb).1]; rintro ⟨⟩
  | plain hr i hi hp m' hc =>
    apply Sound.of_running
    · rw [hc.stack]; exact h.stack
    · rw [hc.mode]; exact hr
    · rw [hc.fault]; rintro ⟨⟩
    · rw [hc.fault]; rintro ⟨⟩
  | unknown hr hi => exact .of_running h.stack hr (by rintro ⟨⟩) (by rintro ⟨⟩)
  | called hr a hi stack hp => exact .of_running (h.stack.push? hp) hr (by rintro ⟨⟩) (by rintro ⟨⟩)
  | returned hr hi address stack hp =>
    exact .of_running (h.stack.pop? hp) hr (by rintro ⟨⟩) (by rintro ⟨⟩)
  | overflowed hr a hi hd =>
    refine ⟨h.depth, h.stack, .inr (.inr rfl), fault_cases _, fun _ => ⟨rfl, hd⟩, ?_, ?_⟩ <;> rintro ⟨⟩
  | underflowed hr hi hd =>
    refine ⟨h.depth, h.stack, .inr (.inr rfl), fault_cases _, ?_, fun _ => ⟨rfl, hd⟩, ?_⟩ <;> rintro ⟨⟩
  | awaiting hr x hi =>
    refine ⟨h.depth, h.stack, .inr (.inl rfl), fault_cases _, ?_, ?_, fun _ => ⟨rfl, ?_⟩⟩
    · rintro ⟨⟩
    · rintro ⟨⟩
    · have hx := Register.val_lt x
      rw [UInt8.toNat_ofNat']
      omega

theorem kept_sound : Kept Sound where
  initial := sound_initial
  loaded m image h := by
    rw [loaded]
    exact h.congr rfl rfl rfl rfl
  step _ := Sound.step
  tick m h := h.congr rfl rfl rfl rfl
  keys m keys h := h.congr rfl rfl rfl rfl
  halted m h := by
    refine ⟨h.depth, h.stack, .inr (.inr rfl), h.fault, ?_, ?_, ?_⟩
    · exact fun hf => ⟨rfl, (h.overflow hf).2⟩
    · exact fun hf => ⟨rfl, (h.underflow hf).2⟩
    · rintro ⟨⟩
  resumed m h _ := .of_running h.stack rfl (by rintro ⟨⟩) (by rintro ⟨⟩)
  redrawn m h := h.congr rfl rfl rfl rfl

theorem sound_of_reachable {s : Supervisor} (h : s.Reachable) : s.machine.Sound :=
  kept_sound.reachable h

/-- A run that may fault, a key that there is not, a stop and a new start. -/
theorem sound_after_calls :
    let s := (Supervisor.fresh 0 true).afterCalls
      [.run (.integer 3), .setKey (.integer 16) (.flag true), .halt, .resume]
    s.Reachable ∧ s.machine.Sound := by
  intro s
  have hs : s.Reachable := (Supervisor.reachable_fresh (by decide) true).afterCalls _
  exact ⟨hs, sound_of_reachable hs⟩

end Chip8.Machine
