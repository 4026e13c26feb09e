import Chip8.Proofs.History

/-! Behind a stack fault. The machine is halted on the instruction that it could not execute, and nothing
else about it has changed. A halted machine does nothing, whatever it is asked for; and a machine that is
resumed is on the same instruction with the same stack, so it faults as it did before.

* `last_cycle`: the error of a step, a run or a frame is about the last cycle that there was;
* `rested_call`, `rests_afterCalls`: the calls that leave a halted machine to itself;
* `handled_call`: what no call short of a load and a reset changes about a machine that is stuck;
* `stack_fault_stays`: an error of a stack fault, and all that may come after it. -/

namespace Chip8

namespace Call

/-- The calls that let a machine run. -/
def Drives : Call → Prop
  | step | run _ | runFrame _ => True
  | _ => False

/-- The calls that bring no other program and no other state, and set no halted machine going. -/
def Idle : Call → Prop
  | load _ _ | reset | resume => False
  | _ => True

end Call

namespace Machine

/-- Nothing has changed but the timers, the keypad and the redraw flag. -/
def Attended (m m' : Machine) : Prop :=
  ∃ delay sound keys redraw, m' = { m with delay, sound, keys, redraw }

/-- Besides, the machine may have been halted or set running, and its fault forgotten. -/
def Handled (m m' : Machine) : Prop :=
  ∃ delay sound keys redraw mode fault,
    m' = { m with delay, sound, keys, redraw, mode, fault } ∧ (mode = .running ∨ mode = .halted)

theorem attended_refl (m : Machine) : m.Attended m :=
  ⟨_, _, _, _, rfl⟩

theorem Attended.trans {m₁ m₂ m₃ : Machine} (h : m₁.Attended m₂) (h' : m₂.Attended m₃) :
    m₁.Attended m₃ := by
  obtain ⟨_, _, _, _, rfl⟩ := h
  obtain ⟨_, _, _, _, rfl⟩ := h'
  exact ⟨_, _, _, _, rfl⟩

theorem Attended.mode {m m' : Machine} (h : m.Attended m') : m'.mode = m.mode := by
  obtain ⟨_, _, _, _, rfl⟩ := h
  rfl

namespace Handled

variable {m m' : Machine}

theorem mode (h : m.Handled m') : m'.mode = .running ∨ m'.mode = .halted := by
  obtain ⟨_, _, _, _, _, _, rfl, hmode⟩ := h
  exact hmode

theorem attended (h : m.Handled m') {m'' : Machine} (ha : m'.Attended m'') : m.Handled m'' := by
  obtain ⟨_, _, _, _, _, _, rfl, hmode⟩ := h
  obtain ⟨_, _, _, _, rfl⟩ := ha
  exact ⟨_, _, _, _, _, _, rfl, hmode⟩

theorem switched (h : m.Handled m') {mode : Mode} (hm : mode = .running ∨ mode = .halted)
    (fault : Option Fault) : m.Handled { m' with mode, fault } := by
  obtain ⟨_, _, _, _, _, _, rfl, -⟩ := h
  exact ⟨_, _, _, _, _, _, rfl, hm⟩

/-- Two machines that stop at the same fault are the same but for what a host does. -/
theorem halted (h : m.Handled m') (f : Fault) :
    Attended { m with mode := .halted, fault := some f }
      { m' with mode := .halted, fault := some f } := by
  obtain ⟨_, _, _, _, _, _, rfl, -⟩ := h
  exact ⟨_, _, _, _, rfl⟩

/-- The word and the stack are those of before, so the fault is too. -/
theorem faults (h : m.Handled m') {f : Fault} (hf : m.Faults f) (hr : m'.mode = .running) :
    m'.Faults f ∧ m'.pc = m.pc ∧ m'.fetch = m.fetch := by
  obtain ⟨_, _, _, _, _, _, rfl, -⟩ := h
  refine ⟨?_, rfl, rfl⟩
  cases f with
  | unknownOpcode | stackOverflow | stackUnderflow => exact ⟨hr, hf.2⟩

/-- A step of a machine that is stuck leads to where it was stuck before. -/
theorem step (h : m.Handled m') {f : Fault} (hs : f.isStackFault = true) (hf : m.Faults f) :
    m.Handled m'.step := by
  rcases h.mode with hr | hh
  · rw [step_of_stackFault hs (h.faults hf hr).1]
    exact h.switched (.inr rfl) _
  · rw [step_of_halted hh]
    exact h

end Handled

end Machine

namespace Supervisor

variable {s : Supervisor}

/-! ## The last cycle -/

theorem call_of_ok {c : Call} {r : Request} (h : c.request = .ok r) : s.call c = s.answer r := by
  rw [call, h]

theorem ofMachine_frameLength {v : Value} {e : Error} (h : Argument.frameLength v = .error e) :
    e.ofMachine = false := by
  cases v with
  | flag b | integer i | real x =>
    simp only [Argument.frameLength, Value.toInt?] at h
    split at h <;> cases h <;> rfl
  | _ => cases h; rfl

theorem ofMachine_key {v : Value} {e : Error} (h : Argument.key v = .error e) :
    e.ofMachine = false := by
  cases v with
  | integer i | real x =>
    rw [Argument.key] at h
    split at h <;> cases h <;> rfl
  | _ => cases h; rfl

/-- Arguments are refused by errors of their own. -/
theorem ofMachine_request {c : Call} {e : Error} (h : c.request = .error e) :
    e.ofMachine = false := by
  cases c with
  | run v =>
    have he := error_of_map h
    rw [Argument.integer] at he
    split at he <;> cases he
    rfl
  | runFrame v => exact ofMachine_frameLength (error_of_map h)
  | setKey key pressed => exact ofMachine_key (error_of_map h)
  | _ => cases h

/-- An execution error of a call is about the last cycle of the call. -/
theorem last_cycle {c : Call} (hc : c.Drives) {f : Fault} {pc word : UInt16}
    (h : (s.call c).2 = .error (.execution f pc word)) :
    ∃ r, c.request = .ok r ∧
      EndsIn (s.deeds r) (.execution f pc word) (s.call c).1.machine := by
  cases hr : c.request with
  | error e =>
    have he := ofMachine_request hr
    rw [call, hr] at h
    rw [Except.error.inj h] at he
    cases he
  | ok r =>
    refine ⟨r, rfl, ?_⟩
    rw [call_of_ok hr] at h ⊢
    cases c with
    | step =>
      cases hr
      exact endsIn_step (error_of_map h)
    | run v =>
      obtain ⟨n, -, rfl⟩ := ok_of_map hr
      exact endsIn_run (error_of_map h)
    | runFrame v =>
      obtain ⟨n, -, rfl⟩ := ok_of_map hr
      exact endsIn_runFrame (error_of_map h)
    | _ => exact hc.elim

/-! ## At a halt -/

/-- A request that was answered without an error and without a cycle, and of which nothing is left but
what a host does to the timers, the keypad and the redraw flag. -/
structure Rested (s : Supervisor) (r : Supervisor × Except Error Answer) : Prop where
  machine : s.machine.Attended r.1.machine
  cycles : r.1.cycles = s.cycles
  answer : ∃ a, r.2 = .ok a ∧ ∀ n, a = .count n → n = 0

theorem isHalted_of_halted (h : s.machine.mode = .halted) : s.isHalted = true :=
  decide_eq_true h

theorem runFrom_of_halted (h : s.machine.mode = .halted) (ran n : Nat) :
    s.runFrom ran n = (s, .ok ran) := by
  cases n with
  | zero => rfl
  | succ n => rw [runFrom_succ, if_pos (isHalted_of_halted h)]

theorem run_of_halted (h : s.machine.mode = .halted) (n : Int) :
    ∃ journal, s.run n = ({ s with journal }, .ok 0) := by
  obtain ⟨journal, hrun⟩ := s.run_eq n
  rw [runFrom_of_halted h] at hrun
  exact ⟨journal, hrun⟩

theorem runFrame_of_halted (h : s.machine.mode = .halted) (n : Nat) :
    ∃ journal, s.runFrame n = ({ s with journal }.tick, .ok 0) := by
  obtain ⟨journal, hrun⟩ := s.run_of_halted h n
  exact ⟨journal, by rw [runFrame, hrun]⟩

theorem rested_call (h : s.machine.mode = .halted) {c : Call} (hc : c.Idle) {r : Request}
    (hr : c.request = .ok r) : s.Rested (s.call c) := by
  rw [call_of_ok hr]
  cases c with
  | load | reset | resume => exact hc.elim
  | step =>
    cases hr
    rw [answer, step_of_halted h]
    exact ⟨Machine.attended_refl _, rfl, _, rfl, by rintro n ⟨⟩⟩
  | run v =>
    obtain ⟨n, -, rfl⟩ := ok_of_map hr
    obtain ⟨journal, hrun⟩ := run_of_halted h n
    rw [answer, hrun]
    exact ⟨Machine.attended_refl _, rfl, _, rfl, by rintro n ⟨⟩; rfl⟩
  | runFrame v =>
    obtain ⟨n, -, rfl⟩ := ok_of_map hr
    obtain ⟨journal, hrun⟩ := runFrame_of_halted h n
    rw [answer, hrun]
    exact ⟨⟨_, _, _, _, rfl⟩, rfl, _, rfl, by rintro n ⟨⟩; rfl⟩
  | tick =>
    cases hr
    exact ⟨⟨_, _, _, _, rfl⟩, rfl, _, rfl, by rintro n ⟨⟩⟩
  | setKey key pressed =>
    obtain ⟨k, -, rfl⟩ := ok_of_map hr
    exact ⟨⟨_, _, _, _, rfl⟩, rfl, _, rfl, by rintro n ⟨⟩⟩
  | releaseKeys =>
    cases hr
    exact ⟨⟨_, _, _, _, rfl⟩, rfl, _, rfl, by rintro n ⟨⟩⟩
  | halt =>
    cases hr
    rw [answer, halt, if_pos (isHalted_of_halted h)]
    exact ⟨Machine.attended_refl _, rfl, _, rfl, by rintro n ⟨⟩⟩
  | consumeRedraw =>
    cases hr
    refine ⟨?_, ?_, _, rfl, by rintro n ⟨⟩⟩
    · rw [answer, machine_consumeRedraw]
      exact ⟨_, _, _, _, rfl⟩
    · rw [answer, consumeRedraw]
      split <;> rfl

/-- From one supervisor to the other the machine was left to itself, and it still is. -/
structure Rests (s t : Supervisor) : Prop where
  machine : s.machine.Attended t.machine
  cycles : t.cycles = s.cycles
  call : ∀ c r, Call.Idle c → c.request = .ok r → t.Rested (t.call c)

theorem rests_afterCalls (h : s.machine.mode = .halted) {calls : List Call}
    (hc : ∀ c ∈ calls, c.Idle) : s.Rests (s.afterCalls calls) := by
  induction calls generalizing s with
  | nil => exact ⟨Machine.attended_refl _, rfl, fun c r hi hr => rested_call h hi hr⟩
  | cons c rest ih =>
    rw [List.forall_mem_cons] at hc
    cases hr : c.request with
    | error e =>
      have hs : (s.call c).1 = s := by rw [Supervisor.call, hr]
      show s.Rests ((s.call c).1.afterCalls rest)
      rw [hs]
      exact ih h hc.2
    | ok r =>
      have hone := rested_call h hc.1 hr
      have hrest := ih (hone.machine.mode.trans h) hc.2
      exact ⟨hone.machine.trans hrest.machine, hrest.cycles.trans hone.cycles, hrest.call⟩

/-! ## Stuck -/

variable {m : Machine} {f : Fault}

theorem handled_resume (hs : m.Handled s.machine) :
    m.Handled s.resume.machine ∧ s.resume.machine.mode = .running := by
  rw [machine_resume]
  rcases hs.mode with hr | hh
  · rw [if_neg (by rw [hr]; rintro ⟨⟩)]
    exact ⟨hs, hr⟩
  · rw [if_pos hh]
    exact ⟨hs.switched (.inl rfl) _, rfl⟩

/-- The machine has not got past the fault, whatever was asked for. -/
theorem handled_call (hf : f.isStackFault = true) (hm : m.Faults f) (hs : m.Handled s.machine)
    {c : Call} (hc : c.Idle ∨ c = .resume) : m.Handled (s.call c).1.machine := by
  have hstep : ∀ m', m.Handled m' → m.Handled m'.step := fun m' h => h.step hf hm
  have htick : ∀ m', m.Handled m' → m.Handled m'.tick := fun m' h => h.attended ⟨_, _, _, _, rfl⟩
  cases hr : c.request with
  | error e =>
    rw [call, hr]
    exact hs
  | ok r =>
    rw [call_of_ok hr]
    cases c with
    | load | reset => exact False.elim (hc.resolve_right (by rintro ⟨⟩))
    | step =>
      cases hr
      rw [answer, replying, machine_step]
      exact hstep _ hs
    | run v =>
      obtain ⟨n, -, rfl⟩ := ok_of_map hr
      rw [answer, replying, machine_run]
      exact runFrom_kept hstep hs 0 _
    | runFrame v =>
      obtain ⟨n, -, rfl⟩ := ok_of_map hr
      exact runFrame_kept hstep htick hs n
    | tick =>
      cases hr
      exact htick _ hs
    | setKey key pressed =>
      obtain ⟨k, -, rfl⟩ := ok_of_map hr
      exact hs.attended ⟨_, _, _, _, rfl⟩
    | releaseKeys =>
      cases hr
      exact hs.attended ⟨_, _, _, _, rfl⟩
    | halt =>
      cases hr
      rcases s.machine_halt with hh | hh <;> rw [answer, replying, hh]
      · exact hs
      · exact hs.switched (.inr rfl) _
    | resume =>
      cases hr
      exact (handled_resume hs).1
    | consumeRedraw =>
      cases hr
      rw [answer, machine_consumeRedraw]
      exact hs.attended ⟨_, _, _, _, rfl⟩

theorem handled_afterCalls (hf : f.isStackFault = true) (hm : m.Faults f)
    (hs : m.Handled s.machine) {calls : List Call} (hc : ∀ c ∈ calls, c.Idle ∨ c = .resume) :
    m.Handled (s.afterCalls calls).machine := by
  induction calls generalizing s with
  | nil => exact hs
  | cons c rest ih =>
    rw [List.forall_mem_cons] at hc
    exact ih (handled_call hf hm hs hc.1) hc.2

theorem call_step_of_faults (hf : f.isStackFault = true) (h : s.machine.Faults f) :
    (s.call .step).2 = .error (.execution f s.machine.pc s.machine.fetch) ∧
      (s.call .step).1.machine = { s.machine with mode := .halted, fault := some f } := by
  constructor
  · show s.step.2.map _ = _
    simp only [answer_step, stepAnswer, (Machine.cycleFault?_eq_some_iff _ _).2 h, hf,
      Bool.true_or, ↓reduceIte]
    rfl
  · exact s.machine_step.trans (Machine.step_of_stackFault hf h)

/-- How a supervisor `t` stands to the machine `m` that a stack fault `f` has left.

* The stack, the registers, the index, memory, the screen and all else but what a host has a hand in are
  those of `m`.
* Where the machine is halted, any calls but a load, a reset and a resume leave it to itself: none is an
  error unless its arguments are refused, no cycle runs, and nothing changes but the timers, the keypad
  and the redraw flag.
* A resume and a step are the same error again, and lead back to `m`. -/
structure Jammed (m : Machine) (f : Fault) (t : Supervisor) : Prop where
  only : m.Handled t.machine
  rests : t.machine.mode = .halted → ∀ calls : List Call, (∀ c ∈ calls, c.Idle) →
    t.Rests (t.afterCalls calls)
  again : ((t.call .resume).1.call .step).2 = .error (.execution f m.pc m.fetch) ∧
    m.Attended ((t.call .resume).1.call .step).1.machine

theorem jammed_of_handled (hf : f.isStackFault = true) (hm : m.Faults f) {t : Supervisor}
    (ht : m.Handled t.machine) : Jammed { m with mode := .halted, fault := some f } f t where
  only := by
    obtain ⟨_, _, _, _, _, _, hmachine, hmode⟩ := ht
    exact ⟨_, _, _, _, _, _, hmachine, hmode⟩
  rests hh calls hc := rests_afterCalls hh hc
  again := by
    obtain ⟨hresumed, hr⟩ := handled_resume ht
    obtain ⟨hfaults, hpc, hfetch⟩ := hresumed.faults hm hr
    obtain ⟨hanswer, hmachine⟩ := call_step_of_faults (s := t.resume) hf hfaults
    constructor
    · refine hanswer.trans ?_
      rw [hpc, hfetch]
      rfl
    · have hback := hresumed.halted f
      rw [← hmachine] at hback
      exact hback

/-- A stack fault is raised with the address and the word that the machine is on, and the cycle that it
ended only halted the machine and noted the fault. Until another program is loaded or the machine is
reset, it stays at that, whatever is called and however often the machine is resumed. -/
theorem stack_fault_stays (s : Supervisor) {c : Call} (hc : c.Drives) {f : Fault}
    (hf : f.isStackFault = true) {pc word : UInt16}
    (he : (s.call c).2 = .error (.execution f pc word)) :
    (pc = (s.call c).1.machine.pc ∧ word = (s.call c).1.machine.fetch) ∧
    (∃ r m, c.request = .ok r ∧ (s.deeds r).getLast? = some (.cycle m) ∧
      (s.call c).1.machine = { m with mode := .halted, fault := some f }) ∧
    ∀ calls : List Call, (∀ c' ∈ calls, c'.Idle ∨ c' = .resume) →
      Jammed (s.call c).1.machine f ((s.call c).1.afterCalls calls) := by
  obtain ⟨r, hr, m, g, hlast, hm, ⟨⟩, hstep⟩ := last_cycle hc he
  have hleft := hstep.trans (Machine.step_of_stackFault hf hm)
  have hdown : m.Handled (s.call c).1.machine := by
    rw [hleft]
    exact ⟨_, _, _, _, _, _, rfl, .inr rfl⟩
  refine ⟨?_, ⟨r, m, hr, hlast, hleft⟩, ?_⟩
  · rw [hleft]
    exact ⟨rfl, rfl⟩
  · intro calls hcalls
    rw [hleft]
    exact jammed_of_handled hf hm (handled_afterCalls hf hm hdown hcalls)

/-- A fresh machine on a return from nowhere. -/
def returning : Supervisor :=
  (fresh 0 false).afterCalls [.load (.bytes [0x00, 0xEE]) none]

theorem machine_returning :
    returning.machine = (Machine.initial (.ofSeed 0)).loaded [0x00, 0xEE] := by
  have hi : (ProgramData.bytes [0x00, 0xEE]).image = .ok [0x00, 0xEE] := rfl
  have hm := (load_of_le (fresh 0 false) hi (by decide) none).1
  rw [machine_fresh] at hm
  exact hm

theorem faults_returning :
    returning.machine.Faults .stackUnderflow ∧ returning.machine.pc = 0x200 ∧
      returning.machine.fetch = 0x00EE := by
  rw [machine_returning]
  have hfetch : ((Machine.initial (.ofSeed 0)).loaded [0x00, 0xEE]).fetch = 0x00EE :=
    Machine.fetch_loaded _ (by decide)
  refine ⟨⟨?_, hfetch, ?_⟩, Machine.pc_loaded _ _, hfetch⟩
  · rw [Machine.mode_loaded]
    rfl
  · rw [Machine.loaded]
    rfl

/-- The return fails. It does so again when the machine is resumed, and in between nothing runs. -/
theorem stack_fault_stays_returning :
    Call.step.Drives ∧ Fault.stackUnderflow.isStackFault = true ∧
      (returning.call .step).2 = .error (.execution .stackUnderflow 0x200 0x00EE) ∧
      Jammed (returning.call .step).1.machine .stackUnderflow
        ((returning.call .step).1.afterCalls
          [.tick, .run (.integer 5), .resume, .tick, .step, .consumeRedraw, .resume]) := by
  obtain ⟨hf, hpc, hfetch⟩ := faults_returning
  have he := (call_step_of_faults (s := returning) rfl hf).1
  rw [hpc, hfetch] at he
  have hcalls : ∀ c ∈ [Call.tick, .run (.integer 5), .resume, .tick, .step, .consumeRedraw, .resume],
      c.Idle ∨ c = .resume := by
    simp [Call.Idle]
  exact ⟨trivial, rfl, he, (stack_fault_stays returning (c := .step) trivial rfl he).2.2 _ hcalls⟩

end Supervisor

end Chip8
