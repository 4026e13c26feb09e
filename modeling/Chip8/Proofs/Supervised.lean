import Chip8.Proofs.Faulting
import Chip8.Proofs.Image
import Chip8.Supervisor

/-! What a supervisor's step does to its machine and its count of cycles, and what it answers. What is
written down about a step changes the journal and nothing else, so the journal plays no part here. -/

namespace Chip8

/-- The next cycle is a stack fault, and `e` is the error that reports it. -/
def Machine.StackFault (m : Machine) (e : Error) : Prop :=
  ∃ f, f.isStackFault = true ∧ m.Faults f ∧ e = .execution f m.pc m.fetch

namespace Supervisor

theorem machine_note (s : Supervisor) (level : Level) (notice : Notice) :
    (s.note level notice).machine = s.machine := rfl

theorem strict_note (s : Supervisor) (level : Level) (notice : Notice) :
    (s.note level notice).strict = s.strict := rfl

theorem noteChange_eq (s : Supervisor) (before : Machine) :
    ∃ journal, s.noteChange before = { s with journal } := by
  unfold noteChange
  split
  · exact ⟨_, rfl⟩
  · split <;> exact ⟨_, rfl⟩

theorem report_eq (s : Supervisor) (f : Fault) (pc word : UInt16) :
    ∃ journal, s.report f pc word = ({ s with journal },
      if f.isStackFault || s.strict then .error (.execution f pc word) else .ok word) := by
  refine ⟨s.journal.noteFault (faultLevel f).name f.name pc.toNat word.toNat, ?_⟩
  unfold report
  by_cases h : (f.isStackFault || s.strict) = true <;> simp [h]

/-- What a step answers, from the word at the program counter and the fault of the cycle. -/
def stepAnswer (s : Supervisor) : Except Error UInt16 :=
  match s.machine.cycleFault? with
  | none => .ok s.machine.fetch
  | some f =>
    if f.isStackFault || s.strict then .error (.execution f s.machine.pc s.machine.fetch)
    else .ok s.machine.fetch

theorem step_of_halted {s : Supervisor} (h : s.machine.mode = .halted) :
    s.step = (s, .ok s.machine.fetch) := by
  simp only [step, h, ↓reduceIte]

theorem step_of_live {s : Supervisor} (h : s.machine.mode ≠ .halted) :
    ∃ journal, s.step = ({ s with machine := s.machine.step, cycles := s.cycles + 1, journal },
      s.stepAnswer) := by
  obtain ⟨noted, hn⟩ := noteChange_eq
    { s with machine := s.machine.step, cycles := s.cycles + 1 } s.machine
  simp only [step, h, ↓reduceIte, hn, stepAnswer, Machine.cycleFault?]
  by_cases hr : s.machine.mode = .running
  · simp only [hr, ↓reduceIte]
    cases s.machine.step.fault with
    | none => exact ⟨_, rfl⟩
    | some f => exact report_eq _ f s.machine.pc s.machine.fetch
  · simp only [hr, ↓reduceIte]
    cases s.machine.step.fault with
    | none => exact ⟨_, rfl⟩
    | some f => exact ⟨_, rfl⟩

theorem machine_step (s : Supervisor) : s.step.1.machine = s.machine.step := by
  by_cases h : s.machine.mode = .halted
  · rw [step_of_halted h, Machine.step_of_halted h]
  · obtain ⟨journal, hs⟩ := step_of_live h
    rw [hs]

theorem cycles_step (s : Supervisor) :
    s.step.1.cycles = s.cycles + if s.machine.mode = .halted then 0 else 1 := by
  by_cases h : s.machine.mode = .halted
  · rw [step_of_halted h, if_pos h, Nat.add_zero]
  · obtain ⟨journal, hs⟩ := step_of_live h
    rw [hs, if_neg h]

theorem strict_step (s : Supervisor) : s.step.1.strict = s.strict := by
  by_cases h : s.machine.mode = .halted
  · rw [step_of_halted h]
  · obtain ⟨journal, hs⟩ := step_of_live h
    rw [hs]

theorem answer_step (s : Supervisor) : s.step.2 = s.stepAnswer := by
  by_cases h : s.machine.mode = .halted
  · simp [step_of_halted h, stepAnswer, Machine.cycleFault?, h]
  · obtain ⟨journal, hs⟩ := step_of_live h
    rw [hs]

/-- On a machine that is not strict, a step is an error exactly when it is a stack fault. -/
theorem step_error_iff {s : Supervisor} (hs : s.strict = false) (e : Error) :
    s.step.2 = .error e ↔ s.machine.StackFault e := by
  simp only [Machine.StackFault, ← Machine.cycleFault?_eq_some_iff, answer_step, stepAnswer, hs,
    Bool.or_false]
  cases s.machine.cycleFault? with
  | none => simp
  | some f =>
    by_cases hf : f.isStackFault = true
    · simp only [hf, ↓reduceIte]
      constructor
      · rintro ⟨⟩
        exact ⟨f, hf, rfl, rfl⟩
      · rintro ⟨g, -, ⟨⟩, rfl⟩
        rfl
    · simp only [hf, Bool.false_eq_true, ↓reduceIte]
      constructor
      · rintro ⟨⟩
      · rintro ⟨g, hg, ⟨⟩, -⟩
        exact absurd hg hf

/-! ## Other operations -/

theorem run_eq (s : Supervisor) (n : Int) :
    ∃ journal, s.run n =
      ({ (s.runFrom 0 n.toNat).1 with journal }, (s.runFrom 0 n.toNat).2) := by
  unfold run
  cases s.runFrom 0 n.toNat with
  | mk s' result =>
    cases result with
    | ok ran => exact ⟨_, rfl⟩
    | error e => exact ⟨s'.journal, rfl⟩

theorem machine_run (s : Supervisor) (n : Int) :
    (s.run n).1.machine = (s.runFrom 0 n.toNat).1.machine := by
  obtain ⟨journal, h⟩ := run_eq s n
  rw [h]

/-- A frame is its run, and a tick where the run returns. -/
theorem runFrame_cases (s : Supervisor) (n : Nat) :
    (∃ s' ran, s.run n = (s', .ok ran) ∧ s.runFrame n = (s'.tick, .ok ran)) ∨
      ∃ s' e, s.run n = (s', .error e) ∧ s.runFrame n = (s', .error e) := by
  rw [runFrame]
  cases s.run n with
  | mk s' result =>
    cases result with
    | ok ran => exact .inl ⟨s', ran, rfl, rfl⟩
    | error e => exact .inr ⟨s', e, rfl, rfl⟩

theorem machine_runFrame (s : Supervisor) (n : Nat) :
    (s.runFrame n).1.machine = (s.run n).1.machine ∨
      (s.runFrame n).1.machine = (s.run n).1.machine.tick := by
  obtain ⟨s', ran, hrun, hf⟩ | ⟨s', e, hrun, hf⟩ := s.runFrame_cases n <;> rw [hrun, hf]
  · exact .inr rfl
  · exact .inl rfl

/-- What a cycle keeps, the loop keeps. -/
theorem runFrom_kept {P : Machine → Prop} (hP : ∀ m, P m → P m.step) {s : Supervisor}
    (h : P s.machine) (ran n : Nat) : P (s.runFrom ran n).1.machine := by
  induction n generalizing s ran with
  | zero => exact h
  | succ n ih =>
    rw [runFrom]
    split
    · exact h
    · have hs := hP _ h
      rw [← machine_step] at hs
      split <;> rename_i heq <;> rw [heq] at hs
      · exact ih hs _
      · exact hs

theorem runFrame_kept {P : Machine → Prop} (hP : ∀ m, P m → P m.step) (ht : ∀ m, P m → P m.tick)
    {s : Supervisor} (h : P s.machine) (n : Nat) : P (s.runFrame n).1.machine := by
  have hr : P (s.run n).1.machine := by
    rw [machine_run]
    exact runFrom_kept hP h 0 _
  rcases s.machine_runFrame n with hf | hf <;> rw [hf]
  · exact hr
  · exact ht _ hr

theorem machine_halt (s : Supervisor) :
    s.halt.1.machine = s.machine ∨ s.halt.1.machine = { s.machine with mode := .halted } := by
  unfold halt
  split
  · exact .inl rfl
  · cases s.modeName with
    | ok name => exact .inr rfl
    | error e => exact .inl rfl

theorem machine_resume (s : Supervisor) :
    s.resume.machine =
      if s.machine.mode = .halted then { s.machine with mode := .running, fault := none }
      else s.machine := by
  by_cases h : s.machine.mode = .halted <;> simp [resume, isHalted, h]

theorem mode_resume (s : Supervisor) :
    s.resume.machine.mode = if s.machine.mode = .halted then .running else s.machine.mode := by
  rw [machine_resume]
  split <;> rfl

theorem pc_resume (s : Supervisor) : s.resume.machine.pc = s.machine.pc := by
  rw [machine_resume]
  split <;> rfl

theorem memory_resume (s : Supervisor) : s.resume.machine.memory = s.machine.memory := by
  rw [machine_resume]
  split <;> rfl

theorem machine_consumeRedraw (s : Supervisor) :
    s.consumeRedraw.1.machine = { s.machine with redraw := false } := by
  unfold consumeRedraw
  split
  · rfl
  · have hr : s.machine.redraw = false := by simpa using ‹¬ s.machine.redraw = true›
    rw [← hr]

theorem load_of_le (s : Supervisor) {data : ProgramData} {image : List UInt8}
    (hi : data.image = .ok image) (hl : image.length ≤ Machine.maxProgramSize)
    (source : Option String) :
    (s.load data source).1.machine = s.machine.loaded image ∧ (s.load data source).2 = .ok () := by
  have hm := Machine.loadImage_of_le s.machine hl
  simp only [load, hi, hm, bind, Except.bind, pure, Except.pure, and_self]

/-- A load either puts an image into the machine or leaves everything as it was. -/
theorem machine_load (s : Supervisor) (data : ProgramData) (source : Option String) :
    (∃ image, (s.load data source).1.machine = s.machine.loaded image) ∨
      (s.load data source).1 = s := by
  cases hi : data.image with
  | error e => exact .inr (by simp only [load, hi, bind, Except.bind])
  | ok image =>
    by_cases hl : image.length ≤ Machine.maxProgramSize
    · exact .inl ⟨image, (load_of_le s hi hl source).1⟩
    · have hm : s.machine.loadImage image = .error _ := if_pos (Nat.lt_of_not_le hl)
      exact .inr (by simp only [load, hi, hm, bind, Except.bind])

theorem machine_reset (s : Supervisor) : s.reset.machine = .initial s.key := by
  unfold reset note
  with_reducible rfl

theorem ok_bind {α β : Type} (a : α) (f : α → Except Error β) : (Except.ok a >>= f) = f a := rfl

theorem ok_of_bind {α β : Type} {x : Except Error α} {f : α → Except Error β} {b : β}
    (h : x >>= f = .ok b) : ∃ a, x = .ok a ∧ f a = .ok b := by
  cases x with
  | error e => cases h
  | ok a => exact ⟨a, rfl, h⟩

theorem ok_of_map {α β : Type} {x : Except Error α} {f : α → β} {b : β} (h : x.map f = .ok b) :
    ∃ a, x = .ok a ∧ f a = b := by
  cases x with
  | error e => cases h
  | ok a => exact ⟨a, rfl, Except.ok.inj h⟩

theorem error_of_map {α β : Type} {x : Except Error α} {f : α → β} {e : Error}
    (h : x.map f = .error e) : x = .error e := by
  cases x with
  | error e' => rw [Except.error.inj h]
  | ok a => cases h

/-- A supervisor is created with a machine at power-on. -/
theorem machine_create {seed : Value} {strict : Bool} {journal : Except Error Journal}
    {s : Supervisor} (h : create seed strict journal = .ok s) :
    ∃ key, s.machine = .initial key := by
  rw [create] at h
  obtain ⟨i, -, h⟩ := ok_of_bind h
  obtain ⟨j, -, h⟩ := ok_of_bind h
  obtain ⟨key, -, h⟩ := ok_of_bind h
  refine ⟨key, ?_⟩
  rw [← Except.ok.inj h, machine_reset]

/-- A seed that 64 bits hold with its sign is accepted. -/
theorem create_ok {seed : Nat} (h : seed < 0x8000000000000000) (strict : Bool) (journal : Journal) :
    create (.integer seed) strict (.ok journal) =
      .ok { machine := .initial (.ofSeed seed), key := .ofSeed seed, strict, journal
            : Supervisor }.reset := by
  have hs : Argument.seed (.integer seed) = .ok seed := by
    rw [Argument.seed, Value.toInt?]
    simp only
    rw [if_neg (by omega), Int.toNat_natCast]
  have hk : Argument.randomKey seed = .ok (.ofSeed seed) := by
    rw [Argument.randomKey, Argument.wide, if_pos (by omega)]
    rfl
  rw [create, hs, ok_bind, ok_bind, hk, ok_bind]
  rfl

end Supervisor

end Chip8
