import Chip8.Host.Window
import Chip8.Proofs.Cycle
import Chip8.Proofs.Supervised

/-! The screen and its redraw flag through cycles, frames and turns. Every instruction that changes the
screen raises the flag, and at the end of a turn the host asks for it. A reset blanks the screen too, but
it leaves a flag that is not raised.

* `flagged_step`, `flagged_runFrame`: cycles and frames change the screen only with the flag raised;
* `screen_handleAll`: the events of a turn change the screen only by a reset;
* `refresh`: what the end of a turn makes of the flag. -/

namespace Chip8

namespace Machine

/-- From the one machine to the other the screen stayed as it was, or the flag is raised. -/
def Flagged (m m' : Machine) : Prop :=
  m'.redraw = true ∨ m'.screen = m.screen ∧ m'.redraw = m.redraw

theorem Flagged.trans {m₁ m₂ m₃ : Machine} (h : m₁.Flagged m₂) (h' : m₂.Flagged m₃) :
    m₁.Flagged m₃ := by
  rcases h' with hr | ⟨hs, hr⟩
  · exact .inl hr
  rcases h with h | ⟨hs', hr'⟩
  · exact .inl (hr.trans h)
  · exact .inr ⟨hs.trans hs', hr.trans hr'⟩

theorem screen_tick (m : Machine) : m.tick.screen = m.screen := rfl

theorem redraw_tick (m : Machine) : m.tick.redraw = m.redraw := rfl

theorem flagged_write (m : Machine) (memory : Memory) (registers : Registers) (index pc : UInt16) :
    m.Flagged { m with memory, registers, index, pc } :=
  .inr ⟨rfl, rfl⟩

theorem flagged_perform (m : Machine) (i : Instruction) : m.Flagged (m.perform i) := by
  cases i with
  | clear | draw => exact .inl rfl
  -- What is written into these three is as large as memory, so it is named before it is compared.
  | digits x =>
    rw [perform, next, advance, storeDigits]
    exact flagged_write m _ _ _ _
  | store x =>
    rw [perform, next, advance, bumpIndex, storeRegisters]
    exact flagged_write m _ _ _ _
  | load x =>
    rw [perform, next, advance, bumpIndex, loadRegisters]
    exact flagged_write m _ _ _ _
  | ret => rw [perform, ret]; split <;> exact .inr ⟨rfl, rfl⟩
  | call a => rw [perform, call]; split <;> exact .inr ⟨rfl, rfl⟩
  | _ => exact .inr ⟨rfl, rfl⟩

theorem flagged_step (m : Machine) : m.Flagged m.step := by
  by_cases hr : m.mode = .running
  · cases hi : m.current? with
    | none => rw [step_of_unknown hr hi]; exact .inr ⟨rfl, rfl⟩
    | some i => rw [step_of_current hr hi]; exact flagged_perform { m with fault := none } i
  by_cases hb : m.mode = .blocked
  · cases hk : Keypad.firstPressed? m.keys m.waitKeys with
    | none => rw [step_of_waiting hb hk]; exact .inr ⟨rfl, rfl⟩
    | some key =>
      obtain ⟨registers, hw⟩ := fillWaiting_eq m key
      rw [step_of_woken hb hk, hw]
      exact .inr ⟨rfl, rfl⟩
  · rw [step_of_idle hr hb]
    exact .inr ⟨rfl, rfl⟩

end Machine

/-- Nothing is drawn and nothing is to be drawn. -/
def Machine.Blank (m : Machine) : Prop :=
  m.screen = Screen.blank ∧ m.redraw = false

theorem Machine.blank_initial (key : Random.Key) : (initial key).Blank :=
  ⟨rfl, rfl⟩

theorem Machine.Blank.loaded {m : Machine} (h : m.Blank) (image : List UInt8) :
    (m.loaded image).Blank := by
  rw [Blank, screen_loaded, redraw_loaded]
  exact h

namespace Supervisor

theorem blank_load {s : Supervisor} (h : s.machine.Blank) (data : ProgramData)
    (source : Option String) : (s.load data source).1.machine.Blank := by
  rcases s.machine_load data source with ⟨image, hl⟩ | hl
  · rw [hl]
    exact h.loaded image
  · rw [hl]
    exact h

theorem flagged_runFrame (s : Supervisor) (n : Nat) :
    s.machine.Flagged (s.runFrame n).1.machine := by
  have hstep : ∀ m, s.machine.Flagged m → s.machine.Flagged m.step := fun m h =>
    h.trans m.flagged_step
  have htick : ∀ m, s.machine.Flagged m → s.machine.Flagged m.tick := fun m h =>
    h.trans (.inr ⟨rfl, rfl⟩)
  exact runFrame_kept hstep htick (.inr ⟨rfl, rfl⟩) n

end Supervisor

namespace Host

/-! ## Events and frames -/

namespace Session

theorem machine_handle (stage : Stage) (s : Session) {e : Event} (h : e ≠ .keyDown .reset) :
    ∃ keys, (s.handle stage e).supervisor.machine = { s.supervisor.machine with keys } := by
  cases e with
  | keyDown key =>
    cases key with
    | reset => exact absurd rfl h
    | _ => exact ⟨_, rfl⟩
  | keyUp key => cases key <;> exact ⟨_, rfl⟩
  | _ => exact ⟨_, rfl⟩

/-- The machine behind a reset is at power-on, with a program in its memory. -/
theorem machine_restart (stage : Stage) (s : Session) :
    ∃ memory, (s.handle stage (.keyDown .reset)).supervisor.machine =
      { Machine.initial s.supervisor.key with memory } := by
  simp only [handle, press, restart, note, Supervisor.note]
  rcases s.supervisor.reset.machine_load (.bytes stage.program) (some stage.rom) with
    ⟨image, hl⟩ | hl
  · rw [hl, Supervisor.machine_reset]
    exact ⟨_, rfl⟩
  · rw [hl, Supervisor.machine_reset]
    exact ⟨_, rfl⟩

theorem blank_restart (stage : Stage) (s : Session) :
    (s.handle stage (.keyDown .reset)).supervisor.machine.Blank := by
  obtain ⟨memory, hm⟩ := machine_restart stage s
  rw [hm]
  exact ⟨rfl, rfl⟩

theorem screen_handle (stage : Stage) (s : Session) (e : Event) :
    (s.handle stage e).supervisor.machine.screen =
      if e = .keyDown .reset then Screen.blank else s.supervisor.machine.screen := by
  by_cases he : e = .keyDown .reset
  · rw [if_pos he, he]
    exact (blank_restart stage s).1
  · obtain ⟨keys, hk⟩ := machine_handle stage s he
    rw [if_neg he, hk]

theorem screen_handleAll (stage : Stage) (s : Session) (events : List Event) :
    (s.handleAll stage events).supervisor.machine.screen =
      if .keyDown .reset ∈ events then Screen.blank else s.supervisor.machine.screen := by
  induction events generalizing s with
  | nil => rfl
  | cons e rest ih =>
    show ((s.handle stage e).handleAll stage rest).supervisor.machine.screen = _
    rw [ih, screen_handle]
    by_cases hr : .keyDown .reset ∈ rest
    · rw [if_pos hr, if_pos (List.mem_cons_of_mem e hr)]
    by_cases he : e = .keyDown .reset
    · rw [if_neg hr, if_pos he, if_pos (he ▸ List.mem_cons_self)]
    · rw [if_neg hr, if_neg he, if_neg]
      rintro hm
      rcases List.mem_cons.1 hm with h | h
      · exact he h.symm
      · exact hr h

/-- The machine behind a frame of the session, which a pause leaves out. -/
theorem machine_runFrame (s : Session) :
    s.runFrame.1.supervisor.machine = s.supervisor.machine ∨
      ∃ n, s.runFrame.1.supervisor.machine = (s.supervisor.runFrame n).1.machine := by
  unfold runFrame
  split
  · exact .inl rfl
  split
  · exact .inl rfl
  · rename_i cycles _
    refine .inr ⟨cycles, ?_⟩
    split <;> rename_i heq <;> rw [heq]
    split <;> rfl

theorem flagged_runFrame (s : Session) :
    s.supervisor.machine.Flagged s.runFrame.1.supervisor.machine := by
  rcases s.machine_runFrame with hm | ⟨n, hm⟩ <;> rw [hm]
  · exact .inr ⟨rfl, rfl⟩
  · exact s.supervisor.flagged_runFrame n

theorem supervisor_updateTone (s : Session) : s.updateTone.1.supervisor = s.supervisor := by
  unfold updateTone
  split
  · rfl
  split <;> rfl

theorem lastPicture_updateTone (s : Session) (calls : List Call) :
    lastPicture (s.updateTone.2 ++ calls) = lastPicture calls := by
  unfold updateTone
  split
  · rfl
  split <;> rfl

end Session

section Parts

variable {stage : Stage} {s : Session}

theorem inPalette_ofScreen (screen : Screen) : (Bitmap.ofScreen screen).inPalette = true := by
  simp only [Bitmap.inPalette, Bitmap.ofScreen, List.all_eq_true]
  intro i _ j _
  split <;> decide

/-- Drawing cannot fail in a size that is accepted. -/
theorem picture_ok {k : Nat} (hk : Argument.scale stage.scale = .ok k) (screen : Screen) :
    stage.picture screen =
      .ok ((Bitmap.ofScreen screen).enlarged k stage.scheme.lit stage.scheme.unlit) := by
  rw [Stage.picture, Picture.render, hk]
  simp only [Supervisor.ok_bind, inPalette_ofScreen, ↓reduceIte]

theorem updateWindow_idle (hr : s.supervisor.machine.redraw = false) :
    s.updateWindow stage = (s, [], none) := by
  simp only [Session.updateWindow, Supervisor.consumeRedraw, hr]
  rfl

theorem updateWindow_drawn (hr : s.supervisor.machine.redraw = true) {p : Picture}
    (hp : stage.picture s.supervisor.machine.screen = .ok p) :
    s.updateWindow stage = ({ s with supervisor := s.supervisor.consumeRedraw.1 },
      [.draw p, .flip], none) := by
  rw [Stage.picture] at hp
  simp only [Session.updateWindow, Supervisor.consumeRedraw, hr, ↓reduceIte, Session.picture, hp]

theorem updateWindow_failed (hr : s.supervisor.machine.redraw = true) {e : Error}
    (hp : stage.picture s.supervisor.machine.screen = .error e) :
    s.updateWindow stage = ({ s with supervisor := s.supervisor.consumeRedraw.1 }, [], some e) := by
  rw [Stage.picture] at hp
  simp only [Session.updateWindow, Supervisor.consumeRedraw, hr, ↓reduceIte, Session.picture, hp]

/-- What the end of a turn can make of the window. -/
inductive Refresh (stage : Stage) (s : Session) : Session × List Call × Option Error → Prop
  | idle (h : s.supervisor.machine.redraw = false) : Refresh stage s (s, [], none)
  | drawn (s' : Session) (p : Picture)
      (hm : s'.supervisor.machine = { s.supervisor.machine with redraw := false })
      (hp : stage.picture s.supervisor.machine.screen = .ok p) :
      Refresh stage s (s', [.draw p, .flip], none)
  | failed (s' : Session) (e : Error) : Refresh stage s (s', [], some e)

theorem refresh (stage : Stage) (s : Session) : Refresh stage s (s.updateWindow stage) := by
  cases hr : s.supervisor.machine.redraw with
  | false =>
    rw [updateWindow_idle hr]
    exact .idle hr
  | true =>
    cases hp : stage.picture s.supervisor.machine.screen with
    | error e =>
      rw [updateWindow_failed hr hp]
      exact .failed _ e
    | ok p =>
      rw [updateWindow_drawn hr hp]
      exact .drawn _ p s.supervisor.machine_consumeRedraw hp

/-- A turn that is not cut short goes through all its parts. -/
theorem parts_of_turn {events : List Event} {s' : Session} {calls : List Call}
    (ht : s.turn stage events = (s', calls, none)) :
    ∃ s₁ shown, (s.handleAll stage events).runFrame = (s₁, none) ∧
      s₁.updateTone.1.updateWindow stage = (s', shown, none) ∧ calls = s₁.updateTone.2 ++ shown := by
  unfold Session.turn at ht
  cases hrun : (s.handleAll stage events).runFrame with
  | mk s₁ error =>
  rw [hrun] at ht
  cases error with
  | some e => cases ht
  | none =>
  cases hw : s₁.updateTone.1.updateWindow stage with
  | mk s₂ result =>
  obtain ⟨shown, error⟩ := result
  simp only [hw] at ht
  cases ht
  exact ⟨s₁, shown, rfl, hw, rfl⟩

/-! ## Turns without a sound -/

theorem updateTone_quiet (hs : s.supervisor.machine.sound = 0) (hp : s.playing = false) :
    s.updateTone = (s, []) := by
  have hq : s.supervisor.machine.sounding = false := by
    rw [Machine.sounding, hs]
    rfl
  simp only [Session.updateTone, hq, hp]
  rfl

/-- A paused session in silence, with nothing to draw, lets a turn pass without a call. -/
theorem turn_paused {s₀ : Session} {events : List Event} (ha : s₀.handleAll stage events = s)
    (hp : s.paused = true) (hq : s.playing = false) (hs : s.supervisor.machine.sound = 0)
    (hr : s.supervisor.machine.redraw = false) : s₀.turn stage events = (s, [], none) := by
  have hf : s.runFrame = (s, none) := by rw [Session.runFrame, if_pos hp]
  simp only [Session.turn, ha, hf, updateTone_quiet hs hq, updateWindow_idle hr, List.append_nil]

/-- A frame that draws, in silence. -/
theorem turn_drawn {s₀ : Session} {events : List Event}
    (hf : (s₀.handleAll stage events).runFrame = (s, none)) (hq : s.playing = false)
    (hs : s.supervisor.machine.sound = 0) (hr : s.supervisor.machine.redraw = true) {p : Picture}
    (hp : stage.picture s.supervisor.machine.screen = .ok p) :
    s₀.turn stage events =
      ({ s with supervisor := s.supervisor.consumeRedraw.1 }, [.draw p, .flip], none) := by
  simp only [Session.turn, hf, updateTone_quiet hs hq, updateWindow_drawn hr hp, List.nil_append]

end Parts

/-- A reset is not seen in the window, at least while the session is paused. -/
theorem turn_pause_reset (stage : Stage) {s : Session} (hp : s.paused = false)
    (hq : s.playing = false) :
    ∃ s', s.turn stage [.keyDown .pause, .keyDown .reset] = (s', [], none) ∧
      s'.running = s.running := by
  obtain ⟨memory, hm⟩ := Session.machine_restart stage { s with paused := !s.paused }
  refine ⟨_, turn_paused rfl ?_ hq ?_ ?_, rfl⟩
  · show (!s.paused) = true
    rw [hp]
    rfl
  · exact (congrArg Machine.sound hm).trans rfl
  · exact (congrArg Machine.redraw hm).trans rfl

end Host

end Chip8
