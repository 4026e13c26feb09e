import Chip8.Proofs.Reachable
import Chip8.Supervisor.History

/-! The induction over everything a host can do, with the history beside the supervisor. What holds of a
new supervisor without a history and is kept by each deed, and by the changes that are no deeds, holds
after all calls. -/

namespace Chip8

/-- A relation between a supervisor and its history that nothing a host can do makes false. -/
structure Followed (P : Supervisor → History → Prop) : Prop where
  cycle : ∀ {s h}, P s h → P s.step.1 (h.add (.cycle s.machine))
  halt : ∀ {s h}, P s h → P s.halt.1 (h.add (.halt s.machine))
  resume : ∀ {s h}, P s h → P s.resume (h.add (.resume s.machine))
  load : ∀ {s h}, P s h → ∀ image size source, P
    { s with
      machine := s.machine.loaded image
      journal := s.journal.noteLoad size Machine.programStart source } h
  host : ∀ {s h}, P s h → ∀ delay sound keys redraw,
    P { s with machine := { s.machine with delay, sound, keys, redraw } } h
  ran : ∀ {s h}, P s h → ∀ cycles elapsed, P (s.note .debug (.ran cycles elapsed)) h
  reset : ∀ {s h}, P s h → P s.reset h.reset

namespace Supervisor

/-- A supervisor is created by a reset. -/
theorem create_eq {seed : Value} {strict : Bool} {journal : Except Error Journal} {s : Supervisor}
    (h : create seed strict journal = .ok s) : ∃ j key, journal = .ok j ∧
      s = ({ machine := .initial key, key, strict, journal := j } : Supervisor).reset := by
  rw [create] at h
  obtain ⟨i, -, h⟩ := ok_of_bind h
  obtain ⟨j, hj, h⟩ := ok_of_bind h
  obtain ⟨key, -, h⟩ := ok_of_bind h
  exact ⟨j, key, hj, (Except.ok.inj h).symm⟩

theorem runFrom_succ (s : Supervisor) (ran n : Nat) : s.runFrom ran (n + 1) =
    if s.isHalted then (s, .ok ran)
    else
      match s.step with
      | (s', .ok _) => s'.runFrom (ran + 1) n
      | (s', .error e) => (s', .error e) := rfl

theorem loopDeeds_succ (s : Supervisor) (n : Nat) : s.loopDeeds (n + 1) =
    if s.isHalted then []
    else .cycle s.machine ::
      match s.step with
      | (s', .ok _) => s'.loopDeeds n
      | (_, .error _) => [] := rfl

/-- A load notes an image and puts it into the machine, or leaves everything as it was. -/
theorem load_eq (s : Supervisor) (data : ProgramData) (source : Option String) :
    (∃ image size, (s.load data source).1 = { s with
      machine := s.machine.loaded image
      journal := s.journal.noteLoad size Machine.programStart source }) ∨
      (s.load data source).1 = s := by
  cases hi : data.image with
  | error e => exact .inr (by simp only [load, hi, bind, Except.bind])
  | ok image =>
    by_cases hl : image.length ≤ Machine.maxProgramSize
    · have hm := Machine.loadImage_of_le s.machine hl
      exact .inl ⟨image, image.length,
        by simp only [load, hi, hm, bind, Except.bind, pure, Except.pure]⟩
    · have hm : s.machine.loadImage image = .error _ := if_pos (Nat.lt_of_not_le hl)
      exact .inr (by simp only [load, hi, hm, bind, Except.bind])

theorem key_step (s : Supervisor) : s.step.1.key = s.key := by
  by_cases h : s.machine.mode = .halted
  · rw [step_of_halted h]
  · obtain ⟨journal, hs⟩ := step_of_live h
    rw [hs]

/-- The supervisor behind a cycle, with the change of mode noted and the fault not yet. -/
def cycled (s : Supervisor) : Supervisor :=
  { s with machine := s.machine.step, cycles := s.cycles + 1 }.noteChange s.machine

/-- A step that is a cycle: the change of mode is noted first, then the fault is reported. -/
theorem step_eq {s : Supervisor} (h : s.machine.mode ≠ .halted) : s.step =
    match s.machine.cycleFault? with
    | none => (s.cycled, .ok s.machine.fetch)
    | some f => s.cycled.report f s.machine.pc s.machine.fetch := by
  have hm : s.cycled.machine = s.machine.step := by
    obtain ⟨noted, hn⟩ := noteChange_eq
      { s with machine := s.machine.step, cycles := s.cycles + 1 } s.machine
    rw [cycled, hn]
  simp only [step, h, ↓reduceIte]
  rw [← cycled, hm, Machine.cycleFault?]
  by_cases hr : s.machine.mode = .running
  · simp only [hr, ↓reduceIte]
    cases s.machine.step.fault <;> rfl
  · simp only [hr, ↓reduceIte]
    cases s.machine.step.fault <;> rfl

/-- A halt that takes effect notes the mode that it ends. -/
theorem halt_eq (s : Supervisor) :
    (s.machine.mode ≠ .halted ∧ ∃ old, s.machine.mode.name? = some old ∧ s.halt.1 = { s with
      journal := s.journal.noteMode old "HALTED" s.machine.pc.toNat
      machine := { s.machine with mode := .halted } }) ∨
      (s.machine.mode = .halted ∨ s.machine.mode.name? = none) ∧ s.halt.1 = s := by
  by_cases h : s.machine.mode = .halted
  · exact .inr ⟨.inl h, by simp only [halt, isHalted, h, decide_true, ↓reduceIte]⟩
  · cases hn : s.machine.mode.name? with
    | none =>
      refine .inr ⟨.inr rfl, ?_⟩
      simp only [halt, isHalted, modeName, h, hn, decide_false, Bool.false_eq_true, ↓reduceIte]
    | some old =>
      refine .inl ⟨h, old, rfl, ?_⟩
      simp only [halt, isHalted, modeName, h, hn, decide_false, Bool.false_eq_true, ↓reduceIte]

theorem resume_of_halted {s : Supervisor} (h : s.machine.mode = .halted) : s.resume = { s with
    journal := s.journal.noteMode "HALTED" "RUNNING" s.machine.pc.toNat
    machine := { s.machine with mode := .running, fault := none } } := by
  simp only [resume, isHalted, h, decide_true, ↓reduceIte]

theorem resume_of_not_halted {s : Supervisor} (h : s.machine.mode ≠ .halted) : s.resume = s := by
  simp only [resume, isHalted, h, decide_false, Bool.false_eq_true, ↓reduceIte]

/-- Whether or not it takes effect, a halt changes the mode and the journal and nothing else. -/
theorem halt_only (s : Supervisor) : ∃ journal mode, s.halt.1 =
    { s with journal, machine := { s.machine with mode } } := by
  rcases s.halt_eq with ⟨-, old, -, he⟩ | ⟨-, he⟩
  · exact ⟨_, _, he⟩
  · exact ⟨_, s.machine.mode, he⟩

theorem resume_only (s : Supervisor) : ∃ journal mode fault, s.resume =
    { s with journal, machine := { s.machine with mode, fault } } := by
  by_cases h : s.machine.mode = .halted
  · exact ⟨_, _, _, resume_of_halted h⟩
  · exact ⟨_, s.machine.mode, s.machine.fault, resume_of_not_halted h⟩

/-- The cycles are counted that begin on a machine that is not halted. -/
theorem cycles_step_eq (s : Supervisor) :
    s.step.1.cycles = s.cycles + if (Deed.cycle s.machine).isLive then 1 else 0 := by
  rw [s.cycles_step, Deed.isLive]
  by_cases hm : s.machine.mode = .halted <;> simp [hm]

/-! ## Errors -/

/-- The last of the deeds is a cycle that faults as the error says, and the machine is the one it left. -/
def EndsIn (deeds : List Deed) (e : Error) (m' : Machine) : Prop :=
  ∃ m f, deeds.getLast? = some (.cycle m) ∧ m.Faults f ∧ e = .execution f m.pc m.fetch ∧ m' = m.step

theorem endsIn_step {s : Supervisor} {e : Error} (h : s.step.2 = .error e) :
    EndsIn [.cycle s.machine] e s.step.1.machine := by
  rw [answer_step, stepAnswer] at h
  cases hf : s.machine.cycleFault? with
  | none =>
    rw [hf] at h
    cases h
  | some f =>
    rw [hf] at h
    simp only at h
    split at h
    · exact ⟨s.machine, f, rfl, (Machine.cycleFault?_eq_some_iff _ _).1 hf, (Except.error.inj h).symm,
        s.machine_step⟩
    · cases h

theorem endsIn_runFrom {s : Supervisor} {ran n : Nat} {e : Error}
    (h : (s.runFrom ran n).2 = .error e) :
    EndsIn (s.loopDeeds n) e (s.runFrom ran n).1.machine := by
  induction n generalizing s ran with
  | zero => cases h
  | succ n ih =>
    rw [runFrom_succ] at h ⊢
    rw [loopDeeds_succ]
    by_cases hh : s.isHalted = true
    · rw [if_pos hh] at h
      cases h
    · rw [if_neg hh] at h ⊢
      rw [if_neg hh]
      cases hstep : s.step with
      | mk s' result =>
        rw [hstep] at h
        cases result with
        | error e' =>
          cases h
          have hs := endsIn_step (s := s) (e := e) (by rw [hstep])
          rwa [hstep] at hs
        | ok w =>
          obtain ⟨m, f, hlast, hm⟩ := ih h
          exact ⟨m, f, by rw [List.getLast?_cons, hlast]; rfl, hm⟩

theorem endsIn_run {s : Supervisor} {n : Int} {e : Error} (h : (s.run n).2 = .error e) :
    EndsIn (s.loopDeeds n.toNat) e (s.run n).1.machine := by
  obtain ⟨journal, hrun⟩ := s.run_eq n
  rw [hrun] at h ⊢
  exact endsIn_runFrom h

theorem endsIn_runFrame {s : Supervisor} {n : Nat} {e : Error} (h : (s.runFrame n).2 = .error e) :
    EndsIn (s.loopDeeds n) e (s.runFrame n).1.machine := by
  obtain ⟨s', ran, hrun, hf⟩ | ⟨s', e', hrun, hf⟩ := s.runFrame_cases n <;> rw [hf] at h
  · cases h
  · have hr := endsIn_run (s := s) (n := n) (e := e)
    rw [hrun] at hr
    rw [hf]
    exact hr h

end Supervisor

namespace Followed

variable {P : Supervisor → History → Prop} (hP : Followed P)

include hP

/-- The loop takes its deeds one by one, whether or not an error ends it. -/
theorem runFrom {s : Supervisor} {h : History} (hs : P s h) (ran n : Nat) :
    P (s.runFrom ran n).1 (h.addAll (s.loopDeeds n)) := by
  induction n generalizing s h ran with
  | zero => exact hs
  | succ n ih =>
    rw [Supervisor.runFrom_succ, Supervisor.loopDeeds_succ]
    split
    · exact hs
    · have hc := hP.cycle hs
      cases hstep : s.step with
      | mk s' result =>
        rw [hstep] at hc
        cases result with
        | ok word => exact ih hc (ran + 1)
        | error e => exact hc

theorem run {s : Supervisor} {h : History} (hs : P s h) (n : Int) :
    P (s.run n).1 (h.addAll (s.loopDeeds n.toNat)) := by
  have hr := hP.runFrom hs 0 n.toNat
  unfold Supervisor.run
  cases hrun : s.runFrom 0 n.toNat with
  | mk s' result =>
    rw [hrun] at hr
    cases result with
    | ok ran => exact hP.ran hr _ _
    | error e => exact hr

theorem tick {s : Supervisor} {h : History} (hs : P s h) : P s.tick h :=
  hP.host hs _ _ s.machine.keys s.machine.redraw

theorem runFrame {s : Supervisor} {h : History} (hs : P s h) (n : Nat) :
    P (s.runFrame n).1 (h.addAll (s.loopDeeds n)) := by
  have hr := hP.run hs n
  rw [Int.toNat_natCast] at hr
  obtain ⟨s', ran, hrun, hf⟩ | ⟨s', e, hrun, hf⟩ := s.runFrame_cases n <;>
    rw [hrun] at hr <;> rw [hf]
  · exact hP.tick hr
  · exact hr

theorem loadData {s : Supervisor} {h : History} (hs : P s h) (data : ProgramData)
    (source : Option String) : P (s.load data source).1 h := by
  rcases s.load_eq data source with ⟨image, size, hl⟩ | hl <;> rw [hl]
  · exact hP.load hs image size source
  · exact hs

theorem consumeRedraw {s : Supervisor} {h : History} (hs : P s h) : P s.consumeRedraw.1 h := by
  unfold Supervisor.consumeRedraw
  split
  · exact hP.host hs s.machine.delay s.machine.sound s.machine.keys false
  · exact hs

theorem call {s : Supervisor} {h : History} (hs : P s h) (c : Call) :
    P (s.call c).1 (s.remember h c) := by
  unfold Supervisor.call Supervisor.remember
  cases c.request with
  | error e => exact hs
  | ok r =>
    cases r with
    | load data source => exact hP.loadData hs data source
    | step => exact hP.cycle hs
    | run cycles => exact hP.run hs cycles
    | runFrame cycles => exact hP.runFrame hs cycles
    | tick => exact hP.tick hs
    | setKey key down => exact hP.host hs s.machine.delay s.machine.sound _ s.machine.redraw
    | releaseKeys => exact hP.host hs s.machine.delay s.machine.sound _ s.machine.redraw
    | halt => exact hP.halt hs
    | resume => exact hP.resume hs
    | consumeRedraw => exact hP.consumeRedraw hs
    | reset => exact hP.reset hs

theorem historyFrom {s : Supervisor} {h : History} (hs : P s h) (calls : List Call) :
    P (s.afterCalls calls) (s.historyFrom h calls) := by
  induction calls generalizing s h with
  | nil => exact hs
  | cons c rest ih => exact ih (hP.call hs c)

theorem history {s : Supervisor} (hs : P s {}) (calls : List Call) :
    P (s.afterCalls calls) (s.history calls) :=
  hP.historyFrom hs calls

end Followed

/-! ## The journal by itself -/

/-- A property of journals that no line makes false, except perhaps a summary, and no fault. -/
structure Journal.Heeded (P : Journal → Prop) : Prop where
  line : ∀ {j}, P j → ∀ tag {n : Notice}, n.isSummary = false →
    P { j with logger := j.logger.log tag n }
  fault : ∀ {j}, P j → ∀ kind, P (j.countFault kind)

namespace Journal.Heeded

variable {P : Journal → Prop} (hP : Heeded P) {s : Supervisor}

include hP

theorem cycled (hs : P s.journal) : P s.cycled.journal := by
  unfold Supervisor.cycled Supervisor.noteChange
  split
  · exact hs
  split
  · exact hP.line hs _ rfl
  · exact hs

theorem report (hs : P s.journal) (f : Fault) (pc word : UInt16) :
    P (s.report f pc word).1.journal := by
  rw [Supervisor.report]
  split <;> exact hP.line (hP.fault hs _) _ rfl

theorem step (hs : P s.journal) : P s.step.1.journal := by
  by_cases hh : s.machine.mode = .halted
  · rw [Supervisor.step_of_halted hh]
    exact hs
  · rw [Supervisor.step_eq hh]
    cases s.machine.cycleFault? with
    | none => exact hP.cycled hs
    | some f => exact hP.report (hP.cycled hs) f _ _

/-- A supervisor sums nothing up by itself. -/
theorem followed : Followed fun s _ => P s.journal where
  cycle hs := hP.step hs
  halt {s _} hs := by
    rcases s.halt_eq with ⟨-, old, -, he⟩ | ⟨-, he⟩ <;> rw [he]
    · exact hP.line hs _ rfl
    · exact hs
  resume {s _} hs := by
    unfold Supervisor.resume
    split
    · exact hP.line hs _ rfl
    · exact hs
  load hs _ _ _ := hP.line hs _ rfl
  host hs _ _ _ _ := hs
  ran hs _ _ := hP.line hs _ rfl
  reset hs := hP.line hs _ rfl

end Journal.Heeded

/-- A summary is written by no call. -/
theorem Journal.heeded_unsummed : Heeded Unsummed where
  line {j} hj tag n hn := by
    intro e he
    simp only [Logger.log] at he
    split at he
    · rw [Array.toList_push] at he
      rcases List.mem_append.1 he with hold | hnew
      · exact hj e hold
      · rw [List.mem_singleton.1 hnew]
        exact hn
    · exact hj e he
  fault hj _ := hj

theorem Journal.threshold_log (l : Logger) (tag : String) (n : Notice) :
    (l.log tag n).threshold = l.threshold := by
  rw [Logger.log]
  split <;> rfl

/-- Nothing that is written down changes the threshold. -/
theorem Journal.heeded_threshold (level : Level) : Heeded fun j => j.logger.threshold = level where
  line h _ _ _ := (threshold_log _ _ _).trans h
  fault h _ := h

end Chip8
