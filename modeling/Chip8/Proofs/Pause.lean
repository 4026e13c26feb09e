import Chip8.Proofs.Events
import Chip8.Proofs.FrameLaw
import Chip8.Proofs.KeyWait
import Chip8.Proofs.Loading

/-! A machine that is halted and resumed at once, compared with one that is left alone. A machine that
runs cannot tell. A machine that waits for a key executes its `FX0A` again, which takes the keypad at
hand for the keypad of the previous poll: a key that went down before the pause and was not polled is
lost. That can happen on every waiting machine, unless all sixteen keys were down at its last poll.

* `agrees_of_running`: a pause of a machine that runs;
* `step_paused_of_unfound`, `pc_step_of_found`: the first step behind a pause of one that waits;
* `exists_not_agrees`: a wait whose `FX0A` is gone, which takes a load;
* `pause_law`: all together, for every sequence of events. -/

namespace Chip8

namespace Machine

/-- What a program computes with: the registers, the memory, the screen, the stack, the timers and the
program counter. -/
structure Agrees (m m' : Machine) : Prop where
  registers : m.registers = m'.registers
  index : m.index = m'.index
  memory : m.memory = m'.memory
  screen : m.screen = m'.screen
  stack : m.stack = m'.stack
  delay : m.delay = m'.delay
  sound : m.sound = m'.sound
  pc : m.pc = m'.pc

theorem Agrees.refl (m : Machine) : m.Agrees m :=
  ⟨rfl, rfl, rfl, rfl, rfl, rfl, rfl, rfl⟩

/-- The machine behind a halt and a resume. -/
def paused (m : Machine) : Machine :=
  { m with mode := .running, fault := none }

theorem agrees_paused (m : Machine) : m.paused.Agrees m :=
  ⟨rfl, rfl, rfl, rfl, rfl, rfl, rfl, rfl⟩

/-- The machine waits, and the word at the program counter is the `FX0A` that it waits on. -/
def OnWait (m : Machine) : Prop :=
  m.mode = .blocked ∧ m.fetch.toNat = 0xF00A + 0x100 * m.waitRegister.toNat

/-- What an event does to a machine. -/
def undergo (m : Machine) : Request → Machine
  | .step => m.step
  | .tick => m.tick
  | .setKey key down => m.setKey key down
  | .releaseKeys => m.releaseKeys
  | _ => m

def undergoAll (m : Machine) (rs : List Request) : Machine :=
  rs.foldl undergo m

theorem undergoAll_step (m : Machine) : m.undergoAll [.step] = m.step := rfl

/-- The first step among the events is a poll that finds a key. -/
def FindsFirst (m : Machine) : List Request → Prop
  | [] => False
  | .step :: _ => Keypad.firstPressed? m.keys m.waitKeys ≠ none
  | r :: rest => (m.undergo r).FindsFirst rest

theorem undergo_eq (m : Machine) {r : Request} (hr : r ≠ .step) : ∃ delay sound keys,
    m.undergo r = { m with delay, sound, keys } ∧
      m.paused.undergo r = { m.paused with delay, sound, keys } := by
  cases r with
  | step => exact absurd rfl hr
  | _ => exact ⟨_, _, _, rfl, rfl⟩

theorem paused_undergo (m : Machine) {r : Request} (hr : r ≠ .step) :
    m.paused.undergo r = (m.undergo r).paused := by
  obtain ⟨_, _, _, h, h'⟩ := m.undergo_eq hr
  rw [h, h']
  rfl

theorem mode_undergo (m : Machine) {r : Request} (hr : r ≠ .step) :
    (m.undergo r).mode = m.mode := by
  obtain ⟨_, _, _, h, -⟩ := m.undergo_eq hr
  rw [h]

theorem onWait_undergo {m : Machine} (hm : m.OnWait) {r : Request} (hr : r ≠ .step) :
    (m.undergo r).OnWait := by
  obtain ⟨_, _, _, h, -⟩ := m.undergo_eq hr
  rw [h]
  exact hm

theorem findsFirst_cons (m : Machine) {r : Request} (hr : r ≠ .step) (rest : List Request) :
    m.FindsFirst (r :: rest) ↔ (m.undergo r).FindsFirst rest := by
  cases r with
  | step => exact absurd rfl hr
  | _ => exact Iff.rfl

/-! ## A pause of a machine that runs -/

theorem step_paused_of_running {m : Machine} (h : m.mode = .running) : m.paused.step = m.step := by
  rw [step_of_running h, step_of_running rfl, execute, execute]
  have hf : ({ m.paused with fault := none } : Machine) = { m with fault := none } := by
    rw [paused, ← h]
  rw [hf]
  rfl

theorem agrees_of_running {m : Machine} (h : m.mode = .running) (rs : List Request) :
    (m.paused.undergoAll rs).Agrees (m.undergoAll rs) := by
  induction rs generalizing m with
  | nil => exact m.agrees_paused
  | cons r rest ih =>
    show ((m.paused.undergo r).undergoAll rest).Agrees ((m.undergo r).undergoAll rest)
    by_cases hr : r = .step
    · subst hr
      rw [undergo, undergo, step_paused_of_running h]
      exact .refl _
    · rw [m.paused_undergo hr]
      exact ih ((m.mode_undergo hr).trans h)

/-! ## A pause of a machine that waits -/

section OnWait

variable {m : Machine} (h : m.OnWait) (hw : m.waitRegister.toNat < 16) (hf : m.fault = none)

include h hw

theorem step_paused : m.paused.step = { m with fault := none, waitKeys := m.keys } := by
  have hs := step_eq_awaiting (m := m.paused) rfl (x := ⟨m.waitRegister.toNat, hw⟩) h.2
  have hx : UInt8.ofNat m.waitRegister.toNat = m.waitRegister := UInt8.ofNat_toNat
  rw [hs, awaiting, hx, paused, ← h.1]

include hf

theorem step_paused_of_unfound (hk : Keypad.firstPressed? m.keys m.waitKeys = none) :
    m.paused.step = m.step := by
  rw [step_paused h hw, step_of_waiting h.1 hk, ← hf]

omit h hw hf in
theorem pc_step_of_found (hb : m.mode = .blocked)
    (hk : Keypad.firstPressed? m.keys m.waitKeys ≠ none) : m.step.pc = m.pc + 2 := by
  obtain ⟨key, hk⟩ := Option.ne_none_iff_exists'.1 hk
  obtain ⟨registers, hr⟩ := fillWaiting_eq m key
  rw [step_of_woken hb hk, hr]
  rfl

/-- The first step decides: from there on the two machines are the same, or one is past its wait. -/
theorem agrees_iff_not_findsFirst (rs : List Request) :
    (∀ k, (m.paused.undergoAll (rs.take k)).Agrees (m.undergoAll (rs.take k))) ↔
      ¬ m.FindsFirst rs := by
  induction rs generalizing m with
  | nil =>
    refine iff_of_true (fun k => ?_) id
    rw [List.take_nil]
    exact m.agrees_paused
  | cons r rest ih =>
    by_cases hr : r = .step
    · subst hr
      by_cases hk : Keypad.firstPressed? m.keys m.waitKeys = none
      · refine iff_of_true (fun k => ?_) (fun hfound => hfound hk)
        cases k with
        | zero => exact m.agrees_paused
        | succ k =>
          show (m.paused.step.undergoAll (rest.take k)).Agrees (m.step.undergoAll (rest.take k))
          rw [step_paused_of_unfound h hw hf hk]
          exact .refl _
      · refine iff_of_false (fun hall => ?_) (not_not_intro hk)
        have hpc : m.paused.step.pc = m.step.pc := (hall 1).pc
        rw [step_paused h hw, pc_step_of_found h.1 hk] at hpc
        simp at hpc
    · obtain ⟨_, _, _, hu, -⟩ := m.undergo_eq hr
      rw [m.findsFirst_cons hr,
        ← ih (onWait_undergo h hr) (by rw [hu]; exact hw) (by rw [hu]; exact hf)]
      constructor
      · intro hall k
        have hk := hall (k + 1)
        rw [List.take_succ_cons] at hk
        rw [← m.paused_undergo hr]
        exact hk
      · intro hall k
        cases k with
        | zero => exact m.agrees_paused
        | succ k =>
          rw [List.take_succ_cons]
          show ((m.paused.undergo r).undergoAll _).Agrees ((m.undergo r).undergoAll _)
          rw [m.paused_undergo hr]
          exact hall k

end OnWait

/-- With every key down at the last poll, no first step finds a key that was up. -/
theorem not_findsFirst_of_held {m : Machine} (h : ∀ key, m.waitKeys.get key = true)
    (rs : List Request) : ¬ m.FindsFirst rs := by
  induction rs generalizing m with
  | nil => exact id
  | cons r rest ih =>
    by_cases hr : r = .step
    · subst hr
      intro hk
      exact hk ((Keypad.firstPressed?_eq_none_iff _ _).2 fun key _ => h key)
    · rw [m.findsFirst_cons hr]
      obtain ⟨_, _, _, hm, -⟩ := m.undergo_eq hr
      exact ih (by rw [hm]; exact h)

theorem findsFirst_press {m : Machine} {key : Register} (h : m.waitKeys.get key = false) :
    m.FindsFirst [.setKey key true, .step] := by
  intro hk
  have hdown : (m.keys.set key.val true (Register.val_lt key)).get key = true := by
    rw [Keypad.get_set, if_pos rfl]
  have hup : m.waitKeys.get key = true := (Keypad.firstPressed?_eq_none_iff _ _).1 hk key hdown
  rw [h] at hup
  cases hup

/-! ## A wait whose instruction is gone -/

theorem fetch_of_awaitKey {m : Machine} {x : Register} (h : m.current? = some (.awaitKey x)) :
    m.fetch.toNat = 0xF00A + 0x100 * x.val := by
  rw [current?, Instruction.ofFields?_eq_some_iff] at h
  rw [← h, Instruction.encode, Instruction.pack]
  omega

theorem step_releaseKeys {m : Machine} (hb : m.mode = .blocked) :
    m.releaseKeys.step = { m with keys := Keypad.released, waitKeys := Keypad.released } := by
  rw [step_of_waiting (m := m.releaseKeys) hb (Keypad.firstPressed?_released _)]
  rfl

/-- A wait that saw no key down is over with the first key that goes down. -/
theorem step_press {m : Machine} (hb : m.mode = .blocked) (hk : m.keys = Keypad.released)
    (hwk : m.waitKeys = Keypad.released) {x : Register} (hx : m.waitRegister = UInt8.ofNat x)
    (key : Register) : (m.setKey key true).step = (m.setKey key true).woken x key := by
  have hp : Keypad.firstPressed? (m.setKey key true).keys (m.setKey key true).waitKeys =
      some key := by
    show Keypad.firstPressed? (m.keys.set key.val true (Register.val_lt key)) m.waitKeys = some key
    rw [hk, hwk]
    exact Keypad.firstPressed?_press key
  rw [step_of_woken (m := m.setKey key true) hb hp,
    fillWaiting_of_register (m := m.setKey key true) hx]
  rfl

/-- A jump to itself stays where it is, whatever key goes down. -/
theorem pc_step_of_still {p q : Machine} (hr : p.mode = .running) {i : Instruction}
    (hi : p.current? = some i) (hp : i.Plain) (hpc : p.step.pc = p.pc) (hm : q.mode = .running)
    (hq : q.Agrees p) : q.step.pc = p.pc := by
  have hi' : q.current? = some i := by
    rw [current?, fetch_congr hq.memory hq.pc]
    exact hi
  rw [step_of_current hr hi] at hpc
  rw [step_of_current hm hi']
  by_cases hg : i.GoesOn
  · rw [pc_perform_of_goesOn _ hg] at hpc
    split at hpc <;> simp at hpc
  · cases i with
    | call | ret | awaitKey => exact hp.elim
    | jump a => exact hpc
    | jumpOffset a =>
      have hz : q.register (Register.ofNat 0) = p.register (Register.ofNat 0) := by
        rw [register, hq.registers, register]
      rw [← hpc]
      show UInt16.ofNat (a.val + (q.register (Register.ofNat 0)).toNat) = _
      rw [hz]
      rfl
    | _ => exact absurd trivial hg

/-- A machine that one step leaves as it is, and that moves on by a word once a key is down, is at an
`FX0A`, and has put the key into its register. -/
theorem awaits_of_moves {p : Machine} (hr : p.mode = .running) (hk : p.keys = Keypad.released)
    {key : Register} (ha : p.step.Agrees p) (hpc : (p.step.setKey key true).step.pc = p.pc + 2) :
    ∃ y, p.current? = some (.awaitKey y) ∧ ∀ z,
      (p.step.setKey key true).step.register z = if y = z then UInt8.ofNat key else p.register z := by
  have ho := step_outcome p
  generalize hq : p.step = q at ho ha hpc ⊢
  cases ho with
  | idle hr' => exact absurd hr hr'
  | waiting hb | woken hb =>
    rw [hr] at hb
    cases hb
  | plain hr' i hi hp m' hc =>
    have hstill : (q.setKey key true).step.pc = p.pc :=
      pc_step_of_still hr hi hp (hq ▸ ha.pc) (hc.mode.trans hr) { ha with pc := ha.pc }
    rw [hpc] at hstill
    simp at hstill
  | unknown =>
    have hstill : p.pc + 2 = p.pc := ha.pc
    simp at hstill
  | called hr' a hi stack hp =>
    have hs : stack = p.stack := ha.stack
    have hd := (CallStack.push?_some hp).1
    rw [hs] at hd
    omega
  | returned hr' hi address stack hp =>
    have hs : stack = p.stack := ha.stack
    have hd := (CallStack.pop?_some hp).1
    rw [hs] at hd
    omega
  | overflowed | underflowed =>
    rw [step_of_idle (by rintro ⟨⟩) (by rintro ⟨⟩)] at hpc
    have hstill : p.pc = p.pc + 2 := hpc
    simp at hstill
  | awaiting hr' y hi =>
    refine ⟨y, hi, fun z => ?_⟩
    have hs := step_press (m := { p with
      fault := none, mode := .blocked, waitRegister := UInt8.ofNat y, waitKeys := p.keys })
      rfl hk hk rfl key
    rw [hs]
    exact register_setRegister p y z (UInt8.ofNat key)

theorem exists_register_ne (m : Machine) (x : Register) :
    ∃ key : Register, m.register x ≠ UInt8.ofNat key := by
  by_cases h : m.register x = 0
  · exact ⟨1, by rw [h]; decide⟩
  · exact ⟨0, h⟩

theorem exists_not_agrees {m : Machine} (hb : m.mode = .blocked) (hw : m.waitRegister.toNat < 16)
    (hd : ¬ m.OnWait) :
    ∃ rs, (∀ r ∈ rs, r.IsEvent) ∧ ¬ (m.paused.undergoAll rs).Agrees (m.undergoAll rs) := by
  apply Classical.byContradiction
  intro hnone
  have hall : ∀ rs, (∀ r ∈ rs, r.IsEvent) → (m.paused.undergoAll rs).Agrees (m.undergoAll rs) :=
    fun rs he => Classical.not_not.1 fun hn => hnone ⟨rs, he, hn⟩
  let x : Register := ⟨m.waitRegister.toNat, hw⟩
  have hx : m.waitRegister = UInt8.ofNat x := UInt8.ofNat_toNat.symm
  obtain ⟨key, hkey⟩ := m.exists_register_ne x
  -- a poll that sees every key up leaves the waiting machine as it is, and then a key ends its wait
  have h1 : m.releaseKeys.paused.step.Agrees m.releaseKeys.step :=
    hall [.releaseKeys, .step] (by simp [Request.IsEvent])
  have h2 : (m.releaseKeys.paused.step.setKey key true).step.Agrees
      (m.releaseKeys.step.setKey key true).step :=
    hall [.releaseKeys, .step, .setKey key true, .step] (by simp [Request.IsEvent])
  rw [step_releaseKeys hb] at h1 h2
  rw [step_press (m := { m with keys := Keypad.released, waitKeys := Keypad.released })
    hb rfl rfl hx key] at h2
  have ha : m.releaseKeys.paused.step.Agrees m.releaseKeys.paused := { h1 with pc := h1.pc }
  obtain ⟨y, hy, hz⟩ := awaits_of_moves rfl rfl ha h2.pc
  have hyx : y ≠ x := by
    rintro rfl
    refine hd ⟨hb, ?_⟩
    have hf : m.releaseKeys.paused.fetch = m.fetch := fetch_congr rfl rfl
    rw [← hf]
    exact fetch_of_awaitKey hy
  have hzx := hz x
  rw [if_neg hyx, register, h2.registers] at hzx
  refine hkey (Eq.trans hzx.symm ?_)
  exact (register_setRegister _ x x _).trans (if_pos rfl)

end Machine

/-! ## The law -/

namespace Supervisor

/-- A halt, and a resume. -/
def pause (s : Supervisor) : Supervisor := s.halt.1.resume

theorem machine_pause {s : Supervisor} (h : s.machine.mode = .running ∨ s.machine.mode = .blocked) :
    s.halt.2 = .ok () ∧ s.pause.machine = s.machine.paused := by
  have hh : s.halt.2 = .ok () ∧ s.halt.1.machine = { s.machine with mode := .halted } := by
    rcases h with h | h <;>
      simp only [halt, isHalted, modeName, h, Mode.name?, decide_eq_true_eq, reduceCtorEq, ↓reduceIte,
        and_self]
  refine ⟨hh.1, ?_⟩
  rw [pause, machine_resume, hh.2]
  rfl

theorem machine_afterAll (s : Supervisor) {rs : List Request} (he : ∀ r ∈ rs, r.IsEvent) :
    (s.afterAll rs).machine = s.machine.undergoAll rs := by
  induction rs generalizing s with
  | nil => rfl
  | cons r rest ih =>
    obtain ⟨hr, he⟩ := List.forall_mem_cons.1 he
    rw [afterAll_cons, ih _ he]
    cases r with
    | step => rw [show (s.answer .step).1.machine = s.machine.step from machine_step s]; rfl
    | tick | setKey | releaseKeys => rfl
    | _ => exact hr.elim

/-- How a pause shows in the events after it. -/
structure PauseLaw (s : Supervisor) : Prop where
  halts : s.halt.2 = .ok ()
  running : s.machine.mode = .running → ∀ rs, (∀ r ∈ rs, r.IsEvent) →
    (s.pause.afterAll rs).machine.Agrees (s.afterAll rs).machine
  waiting : s.machine.OnWait → ∀ rs, (∀ r ∈ rs, r.IsEvent) →
    ((∀ k, (s.pause.afterAll (rs.take k)).machine.Agrees (s.afterAll (rs.take k)).machine) ↔
      ¬ s.machine.FindsFirst rs)
  always : (∀ rs, (∀ r ∈ rs, r.IsEvent) →
      (s.pause.afterAll rs).machine.Agrees (s.afterAll rs).machine) ↔
    s.machine.mode = .running ∨ s.machine.OnWait ∧ ∀ key, s.machine.waitKeys.get key = true

theorem pause_law {s : Supervisor} (h : s.Reachable) (hn : s.machine.mode ≠ .halted) :
    s.PauseLaw := by
  have hs := Machine.kept_sound.reachable h
  have hmode : s.machine.mode = .running ∨ s.machine.mode = .blocked :=
    hs.mode.imp_right fun hm => hm.resolve_right hn
  obtain ⟨hhalt, hpause⟩ := machine_pause hmode
  have hafter : ∀ rs, (∀ r ∈ rs, r.IsEvent) →
      ((s.pause.afterAll rs).machine.Agrees (s.afterAll rs).machine ↔
        (s.machine.paused.undergoAll rs).Agrees (s.machine.undergoAll rs)) := by
    intro rs he
    rw [machine_afterAll _ he, machine_afterAll _ he, hpause]
  have hwait : s.machine.OnWait → ∀ rs, (∀ r ∈ rs, r.IsEvent) →
      ((∀ k, (s.pause.afterAll (rs.take k)).machine.Agrees (s.afterAll (rs.take k)).machine) ↔
        ¬ s.machine.FindsFirst rs) := by
    intro hw rs he
    obtain ⟨hfault, hreg⟩ := hs.blocked hw.1
    rw [← Machine.agrees_iff_not_findsFirst hw hreg hfault rs]
    exact forall_congr' fun k => hafter _ fun r hr => he r (List.mem_of_mem_take hr)
  have hrun : s.machine.mode = .running → ∀ rs, (∀ r ∈ rs, r.IsEvent) →
      (s.pause.afterAll rs).machine.Agrees (s.afterAll rs).machine :=
    fun hr rs he => (hafter rs he).2 (Machine.agrees_of_running hr rs)
  refine ⟨hhalt, hrun, hwait, ?_, ?_⟩
  · intro hall
    refine hmode.imp_right fun hb => ?_
    by_cases hw : s.machine.OnWait
    · refine ⟨hw, fun key => Classical.byContradiction fun hk => ?_⟩
      have he : ∀ r ∈ [Request.setKey key true, .step], r.IsEvent := by simp [Request.IsEvent]
      refine (hwait hw _ he).1 (fun k => hall _ fun r hr => he r (List.mem_of_mem_take hr)) ?_
      exact Machine.findsFirst_press (by simpa using hk)
    · obtain ⟨rs, he, hd⟩ := Machine.exists_not_agrees hb (hs.blocked hb).2 hw
      exact absurd ((hafter rs he).1 (hall rs he)) hd
  · rintro (hr | ⟨hw, hheld⟩) rs he
    · exact hrun hr rs he
    · have hk := (hwait hw rs he).2 (Machine.not_findsFirst_of_held hheld rs) rs.length
      rw [List.take_length] at hk
      exact hk

theorem pause_law_waiting :
    waiting.Reachable ∧ waiting.machine.mode ≠ .halted ∧ waiting.PauseLaw := by
  have hn : waiting.machine.mode ≠ .halted := by
    rw [waiting_control.1]
    rintro ⟨⟩
  exact ⟨reachable_waiting, hn, pause_law reachable_waiting hn⟩

/-- The waiting supervisor behind a press that no poll has seen yet. -/
def pressed : Supervisor :=
  waiting.afterCalls [.setKey (.integer 5) (.flag true)]

theorem machine_pressed : ∃ (m : Machine) (keys : Keypad),
    pressed.machine = { m with
      fault := none, mode := .blocked, waitRegister := 5, keys, waitKeys := Keypad.released } ∧
      m.pc = 0x200 ∧ m.fetch = 0xF50A ∧ Keypad.firstPressed? keys Keypad.released = some 5 := by
  refine ⟨(Machine.initial (.ofSeed 0)).loaded [0xF5, 0x0A], Keypad.released.set 5 true, ?_,
    Machine.pc_loaded _ _, Machine.fetch_loaded _ (by decide), Keypad.firstPressed?_press 5⟩
  show waiting.machine.setKey 5 true = _
  rw [waiting, machine_wait (by rw [machine_fresh]; rfl), machine_fresh]
  rfl

/-- The poll of the machine that is left alone fills `V5`; the paused one executes `F50A` again. -/
theorem pause_loses_press :
    pressed.Reachable ∧ pressed.machine.mode ≠ .halted ∧ (∀ r ∈ [Request.step], r.IsEvent) ∧
      (pressed.pause.afterAll [.step]).machine.pc = 0x200 ∧
      (pressed.afterAll [.step]).machine.pc = 0x202 ∧
      ¬ (pressed.pause.afterAll [.step]).machine.Agrees (pressed.afterAll [.step]).machine := by
  obtain ⟨m, keys, hm, hpc, hf, hk⟩ := machine_pressed
  have he : ∀ r ∈ [Request.step], r.IsEvent := by simp [Request.IsEvent]
  have hb : pressed.machine.mode = .blocked := by rw [hm]
  have hw : pressed.machine.OnWait := by
    refine ⟨hb, ?_⟩
    rw [Machine.fetch_congr (m := m) (by rw [hm]) (by rw [hm]), hf, hm]
    rfl
  have hreg : pressed.machine.waitRegister.toNat < 16 := by
    rw [hm]
    show (5 : UInt8).toNat < 16
    decide
  have halone : (pressed.afterAll [.step]).machine.pc = 0x202 := by
    rw [machine_afterAll _ he, Machine.undergoAll_step,
      Machine.pc_step_of_found hb (by rw [hm, hk]; rintro ⟨⟩), hm, hpc]
    rfl
  have hpaused : (pressed.pause.afterAll [.step]).machine.pc = 0x200 := by
    rw [machine_afterAll _ he, (machine_pause (.inr hb)).2, Machine.undergoAll_step,
      Machine.step_paused hw hreg, hm, hpc]
  refine ⟨reachable_waiting.afterCalls _, ?_, he, hpaused, halone, ?_⟩
  · rw [hb]
    rintro ⟨⟩
  · intro ha
    have := ha.pc
    rw [hpaused, halone] at this
    exact absurd this (by decide)

end Supervisor

end Chip8
