import Chip8.Proofs.Events
import Chip8.Proofs.Invariant

/-! Where a loaded program starts. On a machine that runs, or is halted and resumed, the first word
executed is the first word of the image. A load does not end a key wait, though: on a machine that
waits for a key, the next poll that finds one fills the register of the old program and moves past the
first word of the new one, which is never executed.

* `quiet_event`: an event that neither executes nor ends a wait leaves the program where it is;
* `exists_woken`: a poll that ends a wait moves on without having executed anything;
* `startsAt_iff`: so a machine starts at its program counter unless a wait ends first;
* `launch_startsAt_iff`: the same for a machine behind a load. -/

namespace Chip8

namespace Supervisor

/-- The first word that a conversation executes is `word` at `pc`, and up to there neither the program
counter nor a register moves. -/
structure StartsAt (s : Supervisor) (pc word : UInt16) (rs : List Request) : Prop where
  first : ∀ x ∈ (s.executed rs).head?, x = (pc, word)
  still : ∀ k, s.executed (rs.take k) = [] →
    (s.afterAll (rs.take k)).machine.pc = pc ∧
      (s.afterAll (rs.take k)).machine.registers = s.machine.registers

/-- The request is a poll that finds a key. -/
def Finds (s : Supervisor) (r : Request) : Prop :=
  r = .step ∧ s.machine.mode = .blocked ∧
    Keypad.firstPressed? s.machine.keys s.machine.waitKeys ≠ none

/-- One of the requests of a conversation is a poll that finds a key. -/
def Wakes (s : Supervisor) : List Request → Prop
  | [] => False
  | r :: rest => s.Finds r ∨ (s.answer r).1.Wakes rest

theorem quiet_event {s : Supervisor} {r : Request} (he : r.IsEvent) (hx : s.executes r = [])
    (hf : ¬ s.Finds r) : ∃ delay sound keys waitKeys,
      (s.answer r).1.machine = { s.machine with delay, sound, keys, waitKeys } := by
  rcases s.machine_event he with ⟨rfl, hm⟩ | ⟨-, delay, sound, keys, hm⟩
  · rw [hm]
    by_cases hr : s.machine.mode = .running
    · rw [executes_step_of_running hr] at hx
      cases hx
    by_cases hb : s.machine.mode = .blocked
    · have hk : Keypad.firstPressed? s.machine.keys s.machine.waitKeys = none :=
        Classical.not_not.1 fun hk => hf ⟨rfl, hb, hk⟩
      rw [Machine.step_of_waiting hb hk]
      exact ⟨_, _, _, _, rfl⟩
    · rw [Machine.step_of_idle hr hb]
      exact ⟨_, _, _, _, rfl⟩
  · rw [hm]
    exact ⟨_, _, _, _, rfl⟩

theorem still_of_executed {s : Supervisor} {rs : List Request} (he : ∀ r ∈ rs, r.IsEvent)
    (hw : s.machine.mode = .blocked → ¬ s.Wakes rs) (hx : s.executed rs = []) :
    (s.afterAll rs).machine.pc = s.machine.pc ∧
      (s.afterAll rs).machine.registers = s.machine.registers := by
  induction rs generalizing s with
  | nil => exact ⟨rfl, rfl⟩
  | cons r rest ih =>
    rw [List.forall_mem_cons] at he
    rw [executed, List.append_eq_nil_iff] at hx
    obtain ⟨delay, sound, keys, waitKeys, hm⟩ :=
      quiet_event he.1 hx.1 fun hf => hw hf.2.1 (.inl hf)
    have hi := ih (s := (s.answer r).1) he.2 (by rw [hm]; exact fun hb h => hw hb (.inr h)) hx.2
    rw [hm] at hi
    exact hi

theorem executed_head? {s : Supervisor} {rs : List Request} (he : ∀ r ∈ rs, r.IsEvent)
    (hw : s.machine.mode = .blocked → ¬ s.Wakes rs) :
    ∀ x ∈ (s.executed rs).head?, x = (s.machine.pc, s.machine.fetch) := by
  induction rs generalizing s with
  | nil => rintro x ⟨⟩
  | cons r rest ih =>
    rw [List.forall_mem_cons] at he
    rw [executed]
    rcases s.executes_cases r with hx | hx
    · obtain ⟨delay, sound, keys, waitKeys, hm⟩ :=
        quiet_event he.1 hx fun hf => hw hf.2.1 (.inl hf)
      have hi := ih (s := (s.answer r).1) he.2 (by rw [hm]; exact fun hb h => hw hb (.inr h))
      rw [hm] at hi
      rw [hx]
      exact hi
    · rw [hx]
      rintro x ⟨⟩
      rfl

theorem wakes_of_take {s : Supervisor} {rs : List Request} {k : Nat} (h : s.Wakes (rs.take k)) :
    s.Wakes rs := by
  induction rs generalizing s k with
  | nil => rw [List.take_nil] at h; exact h
  | cons r rest ih =>
    cases k with
    | zero => exact h.elim
    | succ k =>
      rcases h with h | h
      · exact .inl h
      · exact .inr (ih h)

theorem machine_of_finds {s : Supervisor} {r : Request} (h : s.Finds r) :
    ∃ registers, (s.answer r).1.machine = { s.machine with
      registers, mode := .running, waitKeys := Keypad.released, pc := s.machine.pc + 2 } := by
  obtain ⟨rfl, hb, hk⟩ := h
  obtain ⟨key, hkey⟩ := Option.ne_none_iff_exists'.1 hk
  obtain ⟨registers, hf⟩ := Machine.fillWaiting_eq s.machine key
  have hm : (s.answer .step).1.machine = s.machine.step := machine_step s
  rw [Machine.step_of_woken hb hkey, hf] at hm
  exact ⟨registers, hm⟩

theorem exists_woken {s : Supervisor} (hb : s.machine.mode = .blocked) {rs : List Request}
    (he : ∀ r ∈ rs, r.IsEvent) (hw : s.Wakes rs) :
    ∃ k, s.executed (rs.take k) = [] ∧
      (s.afterAll (rs.take k)).machine.pc = s.machine.pc + 2 := by
  induction rs generalizing s with
  | nil => exact hw.elim
  | cons r rest ih =>
    rw [List.forall_mem_cons] at he
    have hx : s.executes r = [] := executes_of_not_running (by rw [hb]; rintro ⟨⟩) r
    by_cases hf : s.Finds r
    · obtain ⟨registers, hm⟩ := machine_of_finds hf
      refine ⟨1, ?_, ?_⟩
      · rw [List.take_succ_cons, List.take_zero, executed, hx]
        rfl
      · rw [List.take_succ_cons, List.take_zero, afterAll_cons]
        show (s.answer r).1.machine.pc = _
        rw [hm]
    · obtain ⟨delay, sound, keys, waitKeys, hm⟩ := quiet_event he.1 hx hf
      obtain ⟨k, hk, hp⟩ := ih (by rw [hm]; exact hb) he.2 (hw.resolve_left hf)
      refine ⟨k + 1, ?_, ?_⟩
      · rw [List.take_succ_cons, executed, hx, hk, List.append_nil]
      · rw [List.take_succ_cons, afterAll_cons, hp, hm]

theorem startsAt_iff {s : Supervisor} {rs : List Request} (he : ∀ r ∈ rs, r.IsEvent) :
    s.StartsAt s.machine.pc s.machine.fetch rs ↔ ¬ (s.machine.mode = .blocked ∧ s.Wakes rs) := by
  constructor
  · rintro h ⟨hb, hw⟩
    obtain ⟨k, hx, hp⟩ := exists_woken hb he hw
    have hs := (h.still k hx).1
    rw [hp] at hs
    have ht := congrArg UInt16.toNat hs
    rw [UInt16.toNat_add] at ht
    have hlt := s.machine.pc.toNat_lt
    simp only [UInt16.reduceToNat] at ht
    omega
  · intro hn
    constructor
    · exact executed_head? he fun hb hw => hn ⟨hb, hw⟩
    · intro k hx
      exact still_of_executed (fun r h => he r (List.mem_of_mem_take h))
        (fun hb hw => hn ⟨hb, wakes_of_take hw⟩) hx

/-- A key that is let go, seen to be up by a poll and pressed again ends every wait. -/
theorem wakes_of_press {s : Supervisor} (hb : s.machine.mode = .blocked) :
    s.Wakes [.releaseKeys, .step, .setKey 0 true, .step] := by
  have hn := Keypad.firstPressed?_released s.machine.waitKeys
  have hm : (s.releaseKeys.answer .step).1.machine =
      { s.releaseKeys.machine with waitKeys := Keypad.released } :=
    (machine_step s.releaseKeys).trans (Machine.step_of_waiting hb hn)
  refine .inr (.inr (.inr (.inl ⟨rfl, ?_, ?_⟩)))
  · show (s.releaseKeys.answer .step).1.machine.mode = .blocked
    rw [hm]
    exact hb
  · show Keypad.firstPressed? ((s.releaseKeys.answer .step).1.machine.keys.set 0 true)
      (s.releaseKeys.answer .step).1.machine.waitKeys ≠ none
    rw [hm]
    intro h
    have h0 := (Keypad.firstPressed?_eq_none_iff _ _).1 h 0 rfl
    cases h0

/-! ## Loads -/

/-- A load, and a new start of a machine that is halted. -/
def launch (s : Supervisor) (data : ProgramData) (source : Option String) : Supervisor :=
  (s.load data source).1.resume

section Launch

variable (s : Supervisor) {data : ProgramData} {image : List UInt8} (hi : data.image = .ok image)
  (hl : image.length ≤ Machine.maxProgramSize) (source : Option String)

include hi hl

theorem pc_launch : (s.launch data source).machine.pc = 0x200 := by
  rw [launch, pc_resume, (load_of_le s hi hl source).1, Machine.pc_loaded]

theorem memory_launch :
    (s.launch data source).machine.memory = Machine.withImage s.machine.memory image := by
  rw [launch, memory_resume, (load_of_le s hi hl source).1, Machine.memory_loaded]

theorem mode_launch :
    (s.launch data source).machine.mode =
      if s.machine.mode = .halted then .running else s.machine.mode := by
  rw [launch, mode_resume, (load_of_le s hi hl source).1, Machine.mode_loaded]

/-- A load and a resume end every mode but the key wait. -/
theorem launch_blocked_iff :
    (s.launch data source).machine.mode = .blocked ↔ s.machine.mode = .blocked := by
  rw [mode_launch s hi hl source]
  split
  · simp only [*, reduceCtorEq]
  · exact Iff.rfl

/-- The key wait is still the one of the program before. -/
theorem launch_of_blocked (hb : s.machine.mode = .blocked) :
    (s.launch data source).machine.mode = .blocked ∧
      (s.launch data source).machine.keys = s.machine.keys ∧
      (s.launch data source).machine.waitKeys = s.machine.waitKeys := by
  rw [launch, machine_resume, (load_of_le s hi hl source).1, Machine.mode_loaded,
    if_neg (by rw [hb]; rintro ⟨⟩), Machine.loaded]
  exact ⟨hb, rfl, rfl⟩

end Launch

theorem fetch_launch (s : Supervisor) {data : ProgramData} {high low : UInt8} {rest : List UInt8}
    (hi : data.image = .ok (high :: low :: rest))
    (hl : (high :: low :: rest).length ≤ Machine.maxProgramSize) (source : Option String) :
    (s.launch data source).machine.fetch = UInt16.ofNat (256 * high.toNat + low.toNat) := by
  have hk : 0 + 1 < (high :: low :: rest).length := Nat.succ_lt_succ (Nat.succ_pos _)
  have hp : (s.launch data source).machine.pc.toNat = Machine.programStart + 0 := by
    rw [pc_launch s hi hl source]
    rfl
  exact Machine.fetch_withImage (memory_launch s hi hl source) hp hk hl

theorem launch_startsAt_iff (s : Supervisor) {data : ProgramData} {high low : UInt8}
    {rest : List UInt8} (hi : data.image = .ok (high :: low :: rest))
    (hl : (high :: low :: rest).length ≤ 3584) (source : Option String) :
    let start := (s.launch data source).StartsAt 0x200 (UInt16.ofNat (256 * high.toNat + low.toNat))
    (s.load data source).2 = .ok () ∧
      (∀ rs, (∀ r ∈ rs, r.IsEvent) →
        (start rs ↔ ¬ (s.machine.mode = .blocked ∧ (s.launch data source).Wakes rs))) ∧
      ((∀ rs, (∀ r ∈ rs, r.IsEvent) → start rs) ↔ s.machine.mode ≠ .blocked) := by
  intro start
  have hmode := launch_blocked_iff s hi hl source
  have hrun : ∀ rs, (∀ r ∈ rs, r.IsEvent) →
      (start rs ↔ ¬ (s.machine.mode = .blocked ∧ (s.launch data source).Wakes rs)) := by
    intro rs he
    have h := startsAt_iff (s := s.launch data source) he
    rw [pc_launch s hi hl source, fetch_launch s hi hl source, hmode] at h
    exact h
  refine ⟨(load_of_le s hi hl source).2, hrun, ?_, ?_⟩
  · intro hall hb
    have he : ∀ r ∈ [Request.releaseKeys, .step, .setKey 0 true, .step], r.IsEvent := by
      simp [Request.IsEvent]
    exact (hrun _ he).1 (hall _ he) ⟨hb, wakes_of_press (hmode.2 hb)⟩
  · intro hb rs he
    exact (hrun rs he).2 fun h => hb h.1

theorem launch_startsAt_fresh :
    (ProgramData.bytes [0x6A, 0x05]).image = .ok [0x6A, 0x05] ∧ [0x6A, 0x05].length ≤ 3584 ∧
      ((∀ rs, (∀ r ∈ rs, r.IsEvent) →
        ((fresh 0 false).launch (.bytes [0x6A, 0x05]) none).StartsAt 0x200 0x6A05 rs) ↔
          (fresh 0 false).machine.mode ≠ .blocked) := by
  have hi : (ProgramData.bytes [0x6A, 0x05]).image = .ok [0x6A, 0x05] := rfl
  have hl : [0x6A, 0x05].length ≤ 3584 := by decide
  have h := (launch_startsAt_iff (fresh 0 false) hi hl none).2.2
  rw [show UInt16.ofNat (256 * (0x6A : UInt8).toNat + (0x05 : UInt8).toNat) = 0x6A05 from rfl] at h
  exact ⟨hi, hl, h⟩

/-! ## A program that is not started -/

/-- A program that waits for a key, loaded and begun. -/
theorem machine_wait {s : Supervisor} (hr : s.machine.mode = .running) :
    (s.afterCalls [.load (.bytes [0xF5, 0x0A]) none, .step]).machine =
      { s.machine.loaded [0xF5, 0x0A] with
        fault := none, mode := .blocked, waitRegister := 5, waitKeys := s.machine.keys } := by
  have hi : (ProgramData.bytes [0xF5, 0x0A]).image = .ok [0xF5, 0x0A] := rfl
  have hl : [0xF5, 0x0A].length ≤ Machine.maxProgramSize := by decide
  have hm : (s.afterCalls [.load (.bytes [0xF5, 0x0A]) none, .step]).machine =
      (s.machine.loaded [0xF5, 0x0A]).step := by
    rw [← (load_of_le s hi hl none).1]
    exact machine_step _
  have hc : (s.machine.loaded [0xF5, 0x0A]).current? = some (.awaitKey 5) := by
    rw [Machine.current?, Machine.fetch_loaded _ hl, Instruction.ofFields?_eq_some_iff]
    rfl
  rw [hm, Machine.step_of_awaitKey ((Machine.mode_loaded _ _).trans hr) hc, Machine.loaded]
  rfl

/-- A supervisor whose machine waits for a key to put into `V5`. -/
def waiting : Supervisor :=
  (fresh 0 false).afterCalls [.load (.bytes [0xF5, 0x0A]) none, .step]

theorem reachable_waiting : waiting.Reachable :=
  (reachable_fresh (by decide) false).afterCalls _

theorem waiting_control :
    waiting.machine.mode = .blocked ∧ waiting.machine.keys = Keypad.released ∧
      waiting.machine.waitKeys = Keypad.released := by
  rw [waiting, machine_wait (by rw [machine_fresh]; rfl), machine_fresh, Machine.loaded]
  exact ⟨rfl, rfl, rfl⟩

/-- A key goes down, and a step finds it. -/
def press : List Request :=
  [.setKey 0xB true, .step]

theorem isEvent_press : ∀ r ∈ press, r.IsEvent := by
  simp [press, Request.IsEvent]

theorem press_of_waiting {s : Supervisor} (hb : s.machine.mode = .blocked)
    (hk : s.machine.keys = Keypad.released) (hw : s.machine.waitKeys = Keypad.released) :
    s.executed press = [] ∧ (s.afterAll press).machine.pc = s.machine.pc + 2 := by
  have hn : s.machine.mode ≠ .running := by rw [hb]; rintro ⟨⟩
  have hf : (s.answer (.setKey 0xB true)).1.Finds .step := by
    refine ⟨rfl, hb, ?_⟩
    show Keypad.firstPressed? (s.machine.keys.set 0xB true) s.machine.waitKeys ≠ none
    rw [hk, hw]
    decide
  obtain ⟨registers, hm⟩ := machine_of_finds hf
  constructor
  · rw [press, executed, executed, executed, executes_of_not_running hn,
      executes_of_not_running (s := (s.answer (.setKey 0xB true)).1) hn]
    rfl
  · show ((s.answer (.setKey 0xB true)).1.answer .step).1.machine.pc = _
    rw [hm]
    rfl

/-- The poll that finds the key moves past `6A05`, the only word of the new program. -/
theorem launch_skips_first :
    waiting.Reachable ∧ (ProgramData.bytes [0x6A, 0x05]).image = .ok [0x6A, 0x05] ∧
      (∀ r ∈ press, r.IsEvent) ∧
      (waiting.launch (.bytes [0x6A, 0x05]) none).executed press = [] ∧
      ((waiting.launch (.bytes [0x6A, 0x05]) none).afterAll press).machine.pc = 0x202 ∧
      ¬ (waiting.launch (.bytes [0x6A, 0x05]) none).StartsAt 0x200 0x6A05 press := by
  have hi : (ProgramData.bytes [0x6A, 0x05]).image = .ok [0x6A, 0x05] := rfl
  have hl : [0x6A, 0x05].length ≤ Machine.maxProgramSize := by decide
  obtain ⟨hb, hk, hw⟩ := waiting_control
  obtain ⟨hb', hk', hw'⟩ := launch_of_blocked waiting hi hl none hb
  obtain ⟨hx, hp⟩ := press_of_waiting hb' (hk'.trans hk) (hw'.trans hw)
  rw [pc_launch waiting hi hl none, show (0x200 : UInt16) + 2 = 0x202 from rfl] at hp
  refine ⟨reachable_waiting, hi, isEvent_press, hx, hp, ?_⟩
  intro h
  have hs := h.still 2
  rw [show press.take 2 = press from rfl, hp] at hs
  exact absurd (hs hx).1 (by decide)

end Supervisor

end Chip8
