import Chip8.Machine.Frames
import Chip8.Proofs.Image
import Chip8.Proofs.Supervised

/-!
The supervised loop against the plain run. The loop stops at a halted machine or at an error; the
run goes on for all its cycles. They end alike because a halted machine stands still and, on a
machine that is not strict, only a stack fault is an error, and it halts the machine.

* `looped`: the loop leaves the machine of the plain run, counts the cycles that began on a machine
  that was not halted, and fails with the stack fault of one of them, if there is one;
* `frames_eq`: frames that all return leave the machine and the screens of the plain frames;
* `run_agrees`: both together, for a run, for a frame and for a number of frames.
-/

namespace Chip8

namespace Machine

/-- One of the next `n` cycles is the stack fault that `e` reports. -/
def FaultsWithin (m : Machine) (n : Nat) (e : Error) : Prop :=
  ∃ k, k < n ∧ (m.run k).StackFault e

theorem faultsWithin_succ (m : Machine) (n : Nat) (e : Error) :
    m.FaultsWithin (n + 1) e ↔ m.StackFault e ∨ m.step.FaultsWithin n e :=
  Nat.exists_lt_succ_left

theorem not_faultsWithin_of_halted {m : Machine} (h : m.mode = .halted) (n : Nat) (e : Error) :
    ¬ m.FaultsWithin n e := by
  rintro ⟨k, -, f, -, hf, -⟩
  rw [run_of_halted h] at hf
  exact not_faults_of_halted h f hf

end Machine

namespace Supervisor

/-- What the loop leaves behind, `r`, when it has counted `ran` cycles and `n` are left. -/
structure Looped (s : Supervisor) (ran n : Nat) (r : Supervisor × Except Error Nat) : Prop where
  machine : r.1.machine = s.machine.run n
  cycles : r.1.cycles = s.cycles + s.machine.liveCycles n
  answer : ∀ total, r.2 = .ok total → total = if s.machine.mode = .halted then ran else ran + n
  error : ∀ e, r.2 = .error e ↔ s.machine.FaultsWithin n e
  strict : r.1.strict = s.strict

theorem looped_zero (s : Supervisor) (ran : Nat) : Looped s ran 0 (s, .ok ran) where
  machine := rfl
  cycles := rfl
  answer := by
    rintro total ⟨⟩
    split <;> rfl
  error e := by
    constructor
    · rintro ⟨⟩
    · rintro ⟨k, hk, -⟩
      exact absurd hk (Nat.not_lt_zero k)
  strict := rfl

theorem looped_halted {s : Supervisor} (h : s.machine.mode = .halted) (ran n : Nat) :
    Looped s ran n (s, .ok ran) where
  machine := (Machine.run_of_halted h n).symm
  cycles := by rw [Machine.liveCycles_of_halted h, Nat.add_zero]
  answer := by
    rintro total ⟨⟩
    rw [if_pos h]
  error e := by
    constructor
    · rintro ⟨⟩
    · exact fun he => absurd he (Machine.not_faultsWithin_of_halted h n e)
  strict := rfl

/-- The loop goes on behind a step that succeeded. -/
theorem looped_ok {s : Supervisor} (hs : s.strict = false) (h : s.machine.mode ≠ .halted)
    (hok : ∀ e, s.step.2 ≠ .error e) {ran n : Nat} {r : Supervisor × Except Error Nat}
    (hr : Looped s.step.1 (ran + 1) n r) : Looped s ran (n + 1) r := by
  have hf : ∀ f, s.machine.Faults f → f.isStackFault = false := by
    intro f hf
    cases hb : f.isStackFault with
    | false => rfl
    | true => exact absurd ((step_error_iff hs _).2 ⟨f, hb, hf, rfl⟩) (hok _)
  have hlive := Machine.mode_step_ne_halted h hf
  constructor
  · rw [hr.machine, machine_step]; rfl
  · rw [hr.cycles, cycles_step, machine_step, Machine.liveCycles_succ, if_neg h]; omega
  · intro total ht
    rw [hr.answer total ht, machine_step, if_neg hlive, if_neg h]; omega
  · intro e
    rw [hr.error, machine_step, Machine.faultsWithin_succ, or_iff_right]
    rintro ⟨f, hb, hm, -⟩
    rw [hf f hm] at hb
    cases hb
  · rw [hr.strict, strict_step]

/-- A step that failed halted the machine, so the run stands still from there on. -/
theorem looped_error {s : Supervisor} (hs : s.strict = false) (h : s.machine.mode ≠ .halted)
    {e : Error} (he : s.step.2 = .error e) (ran n : Nat) :
    Looped s ran (n + 1) (s.step.1, .error e) := by
  obtain ⟨f, hb, hf, -⟩ := (step_error_iff hs e).1 he
  have hhalt := Machine.mode_step_of_faults hb hf
  constructor
  · rw [machine_step]; exact (Machine.run_of_halted hhalt n).symm
  · rw [cycles_step, Machine.liveCycles_succ, if_neg h, Machine.liveCycles_of_halted hhalt]
  · rintro total ⟨⟩
  · intro e'
    rw [Machine.faultsWithin_succ, or_iff_left (Machine.not_faultsWithin_of_halted hhalt n e'),
      ← step_error_iff hs, he, Except.error.injEq, Except.error.injEq]
  · exact strict_step s

theorem looped (s : Supervisor) (hs : s.strict = false) (ran n : Nat) :
    Looped s ran n (s.runFrom ran n) := by
  induction n generalizing s ran with
  | zero => exact looped_zero s ran
  | succ n ih =>
    by_cases h : s.machine.mode = .halted
    · simp only [runFrom, isHalted, h, decide_true, ↓reduceIte]
      exact looped_halted h ran (n + 1)
    · simp only [runFrom, isHalted, h, decide_false, Bool.false_eq_true, ↓reduceIte]
      cases hstep : s.step with
      | mk s' result =>
        have hs' : s.step.1 = s' := by rw [hstep]
        cases result with
        | error e =>
          have hl := looped_error hs h (e := e) (by rw [hstep]) ran n
          rwa [hs'] at hl
        | ok word =>
          apply looped_ok hs h
          · intro e; rw [hstep]; rintro ⟨⟩
          · rw [hs']; exact ih s' (by rw [← hs', strict_step, hs]) (ran + 1)

theorem looped_run (s : Supervisor) (hs : s.strict = false) (n : Nat) : Looped s 0 n (s.run n) := by
  have hl := looped s hs 0 n
  obtain ⟨journal, hr⟩ := run_eq s n
  rw [Int.toNat_natCast] at hr
  rw [hr]
  exact ⟨hl.machine, hl.cycles, hl.answer, hl.error, hl.strict⟩

/-! ## Frames -/

theorem answer_runFrame (s : Supervisor) (n : Nat) : (s.runFrame n).2 = (s.run n).2 := by
  obtain ⟨s', ran, hrun, hf⟩ | ⟨s', e, hrun, hf⟩ := s.runFrame_cases n <;> rw [hrun, hf]

theorem strict_runFrame {s : Supervisor} (hs : s.strict = false) (n : Nat) :
    (s.runFrame n).1.strict = false := by
  have hr := (looped_run s hs n).strict
  obtain ⟨s', ran, hrun, hf⟩ | ⟨s', e, hrun, hf⟩ := s.runFrame_cases n <;>
    rw [hrun, hs] at hr <;> rw [hf] <;> exact hr

theorem machine_runFrame_ok {s : Supervisor} (hs : s.strict = false) {n ran : Nat}
    (h : (s.runFrame n).2 = .ok ran) : (s.runFrame n).1.machine = s.machine.frame n := by
  have hr := (looped_run s hs n).machine
  obtain ⟨s', ran', hrun, hf⟩ | ⟨s', e, hrun, hf⟩ := s.runFrame_cases n
  · rw [hrun] at hr
    rw [hf, tick, Machine.frame, ← hr]
  · rw [hf] at h
    cases h

theorem machine_runFrame_error {s : Supervisor} (hs : s.strict = false) {n : Nat} {e : Error}
    (h : (s.runFrame n).2 = .error e) : (s.runFrame n).1.machine = s.machine.run n := by
  have hr := (looped_run s hs n).machine
  obtain ⟨s', ran, hrun, hf⟩ | ⟨s', e', hrun, hf⟩ := s.runFrame_cases n
  · rw [hf] at h
    cases h
  · rw [hrun] at hr
    rw [hf]
    exact hr

/-- The supervisor after a number of frames, whether or not they all return. -/
def afterFrames (s : Supervisor) (n : Nat) : Nat → Supervisor
  | 0 => s
  | count + 1 => (s.runFrame n).1.afterFrames n count

/-- Each of the next `count` frames returns. -/
def FramesReturn (s : Supervisor) (n count : Nat) : Prop :=
  ∀ k, k < count → ∃ ran, ((s.afterFrames n k).runFrame n).2 = .ok ran

theorem frames_eq {s : Supervisor} (hs : s.strict = false) (n count : Nat)
    (h : s.FramesReturn n count) :
    s.machine.frames n count = ((s.afterFrames n count).machine,
      (List.range count).map fun k => (s.afterFrames n (k + 1)).machine.screen) := by
  induction count generalizing s with
  | zero => rfl
  | succ count ih =>
    obtain ⟨ran, hok⟩ := h 0 (Nat.succ_pos count)
    have hm := machine_runFrame_ok hs hok
    have hrest := ih (strict_runFrame hs n) fun k hk => h (k + 1) (Nat.succ_lt_succ hk)
    rw [hm] at hrest
    simp only [Machine.frames, hrest, afterFrames, hm, List.range_succ_eq_map, List.map_cons,
      List.map_map, Function.comp_def]

/-- What a supervised run, a supervised frame and supervised frames of `n` cycles leave and answer,
in terms of the plain ones. -/
structure Agrees (s : Supervisor) (n : Nat) : Prop where
  machine : (s.run n).1.machine = s.machine.run n
  cycles : (s.run n).1.cycles = s.cycles + s.machine.liveCycles n
  answer : ∀ ran, (s.run n).2 = .ok ran → ran = if s.machine.mode = .halted then 0 else n
  error : ∀ e, (s.run n).2 = .error e ↔ s.machine.FaultsWithin n e
  frameAnswer : (s.runFrame n).2 = (s.run n).2
  frame : ∀ ran, (s.runFrame n).2 = .ok ran → (s.runFrame n).1.machine = s.machine.frame n
  unticked : ∀ e, (s.runFrame n).2 = .error e → (s.runFrame n).1.machine = s.machine.run n
  frames : ∀ count : Nat, 0 < count → s.FramesReturn n count →
    s.machine.frames? count n = .ok ((s.afterFrames n count).machine,
      (List.range count).map fun k => (s.afterFrames n (k + 1)).machine.screen)

theorem run_agrees (s : Supervisor) (hs : s.strict = false) (n : Nat) (hn : 0 < n) :
    s.Agrees n := by
  have hl := looped_run s hs n
  constructor
  · exact hl.machine
  · exact hl.cycles
  · intro ran hr
    rw [hl.answer ran hr, Nat.zero_add]
  · exact hl.error
  · exact answer_runFrame s n
  · exact fun ran h => machine_runFrame_ok hs h
  · exact fun e h => machine_runFrame_error hs h
  · intro count hc h
    rw [Machine.frames?, if_neg (by omega), Int.toNat_natCast, Int.toNat_natCast,
      frames_eq hs n count h]

/-- A frame returns, unless one of its cycles can be a stack fault. -/
theorem runFrame_ok {s : Supervisor} (hs : s.strict = false) {n : Nat}
    (h : ∀ k, k < n → (s.machine.run k).fetch.toNat / 0x1000 ≠ 0x2 ∧
      (s.machine.run k).fetch ≠ 0x00EE) :
    ∃ ran, (s.runFrame n).2 = .ok ran := by
  rw [answer_runFrame]
  cases hrun : (s.run n).2 with
  | ok ran => exact ⟨ran, rfl⟩
  | error e =>
    obtain ⟨k, hk, f, hb, hf, -⟩ := ((looped_run s hs n).error e).1 hrun
    obtain ⟨hc, hr⟩ := h k hk
    cases f with
    | unknownOpcode => cases hb
    | stackOverflow => exact absurd hf.2.1 hc
    | stackUnderflow => exact absurd hf.2.1 hr

theorem runFrame_one_ok {s : Supervisor} (hs : s.strict = false)
    (hc : s.machine.fetch.toNat / 0x1000 ≠ 0x2) (hr : s.machine.fetch ≠ 0x00EE) :
    ∃ ran, (s.runFrame 1).2 = .ok ran := by
  refine runFrame_ok hs fun k hk => ?_
  obtain rfl : k = 0 := by omega
  exact ⟨hc, hr⟩

/-- A supervised machine at power-on, which goes through the zeros above the font. -/
def blankStart : Supervisor :=
  ⟨.initial ⟨0, 0⟩, ⟨0, 0⟩, false, 0, {}⟩

/-! ## A run into a fault -/

/-- Two registers are set, then comes a return from nowhere. -/
def stumble : List UInt8 := [0x60, 0x05, 0x61, 0x06, 0x00, 0xEE]

def stumbling : Supervisor :=
  { blankStart with machine := blankStart.machine.loaded stumble }

/-- A machine that has come to a word of that program with nothing on its stack. -/
structure Stumbles (m : Machine) (k : Nat) : Prop where
  mode : m.mode = .running
  memory : m.memory = Machine.withImage Memory.initial stumble
  pc : m.pc.toNat = Machine.programStart + k
  depth : m.stack.depth = 0

theorem Stumbles.fetch {m : Machine} {k : Nat} (h : Stumbles m k) (hk : k + 1 < stumble.length) :
    m.fetch = UInt16.ofNat (256 * stumble[k].toNat + stumble[k + 1].toNat) :=
  Machine.fetch_withImage h.memory h.pc hk (by decide)

theorem Stumbles.step {m : Machine} {k : Nat} (h : Stumbles m k) {x : Register} {byte : UInt8}
    (hi : m.current? = some (.setByte x byte)) (hk : k < 4) : Stumbles m.step (k + 2) := by
  rw [Machine.step_of_current h.mode hi]
  refine ⟨h.mode, h.memory, ?_, h.depth⟩
  show (m.pc + 2).toNat = Machine.programStart + (k + 2)
  have hpc := h.pc
  have htwo : (2 : UInt16).toNat = 2 := rfl
  rw [UInt16.toNat_add, htwo]
  simp only [Machine.programStart] at hpc ⊢
  omega

theorem stumbles_run : Stumbles (stumbling.machine.run 0) 0 ∧ Stumbles (stumbling.machine.run 1) 2 ∧
    Stumbles (stumbling.machine.run 2) 4 := by
  have h₀ : Stumbles stumbling.machine 0 :=
    ⟨rfl, Machine.memory_loaded _ _, congrArg UInt16.toNat (Machine.pc_loaded _ _), rfl⟩
  have hi₀ : stumbling.machine.current? = some (.setByte (Register.ofNat 0) 0x05) := by
    rw [Machine.current?, h₀.fetch (by decide)]
    rfl
  have h₁ := h₀.step hi₀ (by decide)
  have hi₁ : stumbling.machine.step.current? = some (.setByte (Register.ofNat 1) 0x06) := by
    rw [Machine.current?, h₁.fetch (by decide)]
    rfl
  exact ⟨h₀, h₁, h₁.step hi₁ (by decide)⟩

/-- Three cycles end in a stack fault. A frame of the first two returns. -/
theorem run_agrees_stumbling :
    stumbling.strict = false ∧ 0 < 3 ∧ stumbling.Agrees 3 ∧ stumbling.Agrees 2 ∧
      (stumbling.run (3 : Nat)).2 = .error (.execution .stackUnderflow 0x204 0x00EE) ∧
      stumbling.FramesReturn 2 1 := by
  obtain ⟨h₀, h₁, h₂⟩ := stumbles_run
  have hagrees := run_agrees stumbling rfl 3 (by decide)
  refine ⟨rfl, by decide, hagrees, run_agrees stumbling rfl 2 (by decide), ?_, ?_⟩
  · have hpc : (stumbling.machine.run 2).pc = 0x204 := UInt16.toNat_inj.1 h₂.pc
    have hfetch : (stumbling.machine.run 2).fetch = 0x00EE := h₂.fetch (by decide)
    rw [hagrees.error]
    exact ⟨2, by decide, .stackUnderflow, rfl, ⟨h₂.mode, hfetch, h₂.depth⟩, by rw [hpc, hfetch]⟩
  · intro k hk
    obtain rfl : k = 0 := by omega
    refine runFrame_ok rfl fun j hj => ?_
    obtain rfl | rfl : j = 0 ∨ j = 1 := by omega
    · rw [afterFrames, h₀.fetch (by decide)]
      decide
    · rw [afterFrames, h₁.fetch (by decide)]
      decide

end Supervisor

end Chip8
