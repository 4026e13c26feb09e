import Chip8.Proofs.Reachable
import Chip8.Proofs.Redraw
import Chip8.Proofs.SupervisedRun

/-! Whether the window of a session keeps up with the screen of its machine. The window is drawn when the
redraw flag is raised, and a reset takes the screen away without raising it, so until something is drawn
again the window keeps the picture of before.

* `tracks_turn` and `tracks_loop`: a turn keeps the window and the screen together unless it resets, and
  by induction a session does;
* `window_shows_iff`: the window of a run fails to show the screen exactly when it outlived a reset with
  a picture that is not that of a blank screen;
* `window_outlives_reset`: a run in which it does. -/

namespace Chip8

namespace Host

/-- Window and machine between two turns: the flag has been asked for, the window shows the screen unless
it outlived a reset, and behind a reset the screen is blank until something is drawn. -/
structure Tracks (picture : Screen → Except Error Picture) (w : Window) (m : Machine) : Prop where
  asked : m.redraw = false
  shows : w.outlived = false → Shows picture w.shown m.screen
  blank : w.outlived = true → m.screen = Screen.blank

section Tracking

variable {stage : Stage} {w : Window} {s s' : Session} {events : List Event} {calls : List Call}

theorem tracks_drawn {m : Machine} {p : Picture} (hc : lastPicture calls = some p)
    (hr : m.redraw = false) (hp : stage.picture m.screen = .ok p) :
    Tracks stage.picture (w.turn events calls) m := by
  rw [Window.turn, hc]
  exact ⟨hr, fun _ => hp, fun h => by cases h⟩

/-- The events leave the screen alone, unless one of them is a reset. -/
theorem tracks_idle {m : Machine} (h : Tracks stage.picture w s.supervisor.machine)
    (hc : lastPicture calls = none) (hr : m.redraw = false)
    (hs : m.screen = (s.handleAll stage events).supervisor.machine.screen) :
    Tracks stage.picture (w.turn events calls) m := by
  rw [Session.screen_handleAll] at hs
  rw [Window.turn, hc]
  constructor
  · exact hr
  · intro ho
    obtain ⟨hw, he⟩ := Bool.or_eq_false_iff.1 ho
    rw [hs, if_neg (of_decide_eq_false he)]
    exact h.shows hw
  · intro ho
    rw [hs]
    split
    · rfl
    · rename_i he
      rcases Bool.or_eq_true_iff.1 ho with hw | hd
      · exact h.blank hw
      · exact absurd (of_decide_eq_true hd) he

theorem tracks_turn (h : Tracks stage.picture w s.supervisor.machine)
    (ht : s.turn stage events = (s', calls, none)) :
    Tracks stage.picture (w.turn events calls) s'.supervisor.machine := by
  have hf := (s.handleAll stage events).flagged_runFrame
  obtain ⟨s₁, shown, hrun, hw, rfl⟩ := parts_of_turn ht
  have hu := s₁.supervisor_updateTone
  have hr := refresh stage s₁.updateTone.1
  rw [hrun] at hf
  rw [hw] at hr
  cases hr with
  | idle hr =>
    rw [hu] at hr ⊢
    refine tracks_idle h (s₁.lastPicture_updateTone []) hr ?_
    rcases hf with hd | ⟨hs, -⟩
    · rw [hr] at hd
      cases hd
    · exact hs
  | drawn _ p hm hp =>
    rw [hu] at hm hp
    rw [hm]
    exact tracks_drawn (s₁.lastPicture_updateTone _) rfl hp

theorem tracks_loop {script : List (List Event)} {turns : List (List Call)}
    (h : Tracks stage.picture w s.supervisor.machine)
    (hl : s.loop stage script = (s', turns, none)) :
    Tracks stage.picture (w.turns (script.zip turns)) s'.supervisor.machine := by
  induction script generalizing s w turns with
  | nil =>
    cases hl
    exact h
  | cons events rest ih =>
    unfold Session.loop at hl
    cases ht : s.turn stage events with
    | mk s₁ result =>
    obtain ⟨calls, error⟩ := result
    rw [ht] at hl
    cases error with
    | some e => cases hl
    | none =>
      have h₁ := tracks_turn h ht
      simp only at hl
      split at hl
      · cases hrest : s₁.loop stage rest with
        | mk s₂ result =>
        obtain ⟨later, error⟩ := result
        rw [hrest] at hl
        obtain ⟨rfl, rfl, rfl⟩ := hl
        exact ih h₁ hrest
      · cases hl
        rw [List.zip_cons_cons, List.zip_nil_right]
        exact h₁

end Tracking

/-! ## Whole runs -/

theorem lastPicture_quit (calls : List Call) : lastPicture (calls ++ [.quit]) = lastPicture calls := by
  simp [lastPicture, Call.picture?]

/-- Closing the window draws nothing. -/
theorem turns_closeLast (w : Window) (script : List (List Event)) (turns : List (List Call)) :
    w.turns (script.zip (closeLast turns)) = w.turns (script.zip turns) := by
  induction turns generalizing w script with
  | nil => rfl
  | cons calls rest ih =>
    cases script with
    | nil => rfl
    | cons events later =>
      cases rest with
      | nil =>
        simp only [closeLast, List.zip_cons_cons, List.zip_nil_right, Window.turns, List.foldl_cons,
          List.foldl_nil, Window.turn, lastPicture_quit]
      | cons next rest => exact ih (w.turn events calls) later

theorem scheme_of_prepare {c : Config} {scheme : Scheme} (h : c.prepare = .ok scheme) :
    Argument.scheme c.scheme = .ok scheme := by
  rw [Config.prepare] at h
  obtain ⟨frequency, -, h⟩ := Supervisor.ok_of_bind h
  obtain ⟨tone, -, h⟩ := Supervisor.ok_of_bind h
  exact h

theorem picture_eq {c : Config} {stage : Stage} (hs : Argument.scheme c.scheme = .ok stage.scheme)
    (hc : stage.scale = c.scale) : c.picture = stage.picture := by
  funext screen
  rw [Config.picture, hs, Supervisor.ok_bind, Stage.picture, hc]

theorem tracks_blank (picture : Screen → Except Error Picture) {m : Machine} (h : m.Blank) :
    Tracks picture {} m :=
  ⟨h.2, fun _ => h.1, fun ho => by cases ho⟩

/-- The supervisor that a run begins with and the one that the program is loaded into. -/
theorem blank_start {c : Config} {first s : Supervisor} {j : Journal}
    (hf : Supervisor.create c.seed c.strict (.ok j) = .ok first)
    {r : Except Error (List UInt8)} (hl : c.load first = (s, r)) : s.machine.Blank := by
  have hb : first.machine.Blank := by
    obtain ⟨key, hk⟩ := Supervisor.machine_create hf
    rw [hk]
    exact Machine.blank_initial key
  unfold Config.load at hl
  split at hl
  · cases hl
    exact hb
  · rename_i program _
    have hp := Supervisor.blank_load hb (.bytes program) (some c.rom)
    split at hl <;> rename_i heq <;> rw [heq] at hp <;> cases hl <;> exact hp

theorem play_of_loop {c : Config} {stage : Stage} {first s : Supervisor} {pace : Int}
    {setup : List Call} {script : List (List Event)} {session : Session} {turns : List (List Call)}
    (hl : Session.loop stage { supervisor := s.note .info .controls, pace } script =
      (session, turns, none)) :
    c.play stage first s pace setup script =
      { setup, turns := closeLast turns,
        machine := some (first, session.supervisor.noteSummary c.elapsed) } := by
  simp only [Config.play, hl]

theorem tracks_play {c : Config} {stage : Stage} {first first' s last : Supervisor} {pace : Int}
    {setup : List Call} {script : List (List Event)} (hb : s.machine.Blank)
    (hm : (c.play stage first s pace setup script).machine = some (first', last))
    (he : (c.play stage first s pace setup script).error = none) :
    Tracks stage.picture (Window.turns {} (script.zip (c.play stage first s pace setup script).turns))
      last.machine := by
  cases hl : Session.loop stage { supervisor := s.note .info .controls, pace } script with
  | mk session result =>
  obtain ⟨turns, error⟩ := result
  cases error with
  | some e =>
    simp only [Config.play, hl] at he
    cases he
  | none =>
    rw [play_of_loop hl] at hm ⊢
    cases hm
    rw [turns_closeLast]
    exact tracks_loop (tracks_blank _ hb) hl

theorem tracks_run {c : Config} {script : List (List Event)} {first last : Supervisor}
    (hm : (c.run script).machine = some (first, last)) (he : (c.run script).error = none) :
    Tracks c.picture (c.window script) last.machine := by
  unfold Config.window
  unfold Config.run at hm he ⊢
  cases hf : journal c.logLevel >>= fun j => Supervisor.create c.seed c.strict (.ok j) with
  | error e =>
    simp only [hf] at he
    cases he
  | ok first' =>
  obtain ⟨j, -, hcreate⟩ := Supervisor.ok_of_bind hf
  cases hl : c.load first' with
  | mk s r =>
  have hb := blank_start hcreate hl
  simp only [hf, hl] at hm he ⊢
  cases r with
  | error e =>
    cases hm
    rw [List.zip_nil_right]
    exact tracks_blank _ hb
  | ok program =>
  simp only at hm he ⊢
  cases hscale : c.scale.toInt? with
  | none =>
    simp only [hscale] at he
    cases he
  | some scale =>
  simp only [hscale] at hm he ⊢
  cases hprepare : c.prepare with
  | error e =>
    simp only [hprepare] at he
    cases he
  | ok scheme =>
  simp only [hprepare] at hm he ⊢
  cases hpace : c.pace.toInt? with
  | none =>
    simp only [hpace] at he
    cases he
  | some pace =>
  simp only [hpace] at hm he ⊢
  have hp : c.picture = Stage.picture { rom := c.rom, program, scale := c.scale, scheme } :=
    picture_eq (scheme_of_prepare hprepare) rfl
  rw [hp]
  exact tracks_play hb hm he

/-- A script may stop anywhere, so the end of a run is the end of any turn of a longer one. -/
theorem window_shows_iff {c : Config} {script : List (List Event)} {first last : Supervisor}
    (hm : (c.run script).machine = some (first, last)) (he : (c.run script).error = none) :
    Shows c.picture (c.window script).shown last.machine.screen ↔
      ¬ ((c.window script).outlived = true ∧
        ∃ p, (c.window script).shown = some p ∧ c.picture Screen.blank ≠ .ok p) := by
  have ht := tracks_run hm he
  cases ho : (c.window script).outlived with
  | false =>
    constructor
    · rintro - ⟨⟨⟩, -⟩
    · exact fun _ => ht.shows ho
  | true =>
    rw [ht.blank ho]
    cases hs : (c.window script).shown with
    | none =>
      constructor
      · rintro - ⟨-, p, ⟨⟩, -⟩
      · exact fun _ => rfl
    | some p =>
      constructor
      · rintro hp ⟨-, q, ⟨⟩, hq⟩
        exact hq hp
      · intro hn
        exact Classical.byContradiction fun hp => hn ⟨rfl, p, rfl, hp⟩

end Host

/-! ## A window that outlives a reset -/

namespace Machine

/-- Draws the first row of the glyph of zero into the corner. -/
def spotted (key : Random.Key) : Machine :=
  (initial key).loaded [0xD0, 0x01]

theorem current_spotted (key : Random.Key) : (spotted key).current? = some (.draw 0 0 1) := by
  rw [current?, Instruction.ofFields?_eq_some_iff, spotted, fetch_loaded _ (by decide)]
  rfl

theorem read_spotted (key : Random.Key) : (spotted key).memory.read 0 = 0xF0 := by
  rw [spotted, memory_loaded, withImage, Memory.read_overlay, if_neg (by decide)]
  show Memory.initial.read 0 = 0xF0
  rw [Memory.initial, Memory.read_overlay, if_pos (by decide)]
  rfl

theorem mode_spotted (key : Random.Key) : (spotted key).mode = .running := by
  rw [spotted, mode_loaded]
  rfl

theorem step_spotted (key : Random.Key) :
    (spotted key).step = ({ spotted key with fault := none }.drawSprite 0 0 1).next := by
  rw [step_of_current (mode_spotted key) (current_spotted key), perform]

theorem pixel_spotted (key : Random.Key) : (spotted key).step.screen.pixel 0 0 = true := by
  have hb : (spotted key).screen = Screen.blank := screen_loaded _ _
  have hx : ∀ x, (spotted key).register x = 0 := by
    intro x
    rw [spotted, loaded, register, initial]
    simp [Vector.get]
  have hi : (spotted key).index = 0 := by
    rw [spotted, loaded]
    rfl
  have h0 : Sprite.byteAt (spotted key).memory 0 0 = 0xF0 := read_spotted key
  rw [step_spotted]
  show ((spotted key).screen.xor (Sprite.mask (spotted key).memory (spotted key).index.toNat
    ((spotted key).register 0).toNat ((spotted key).register 0).toNat 1)).pixel 0 0 = true
  rw [Screen.pixel_xor, hb, Screen.pixel_blank, hx, hi, Sprite.mask, Screen.pixel_ofFn]
  show (false ^^ (decide (0 < 8) && decide ((0 : Int) < 1) &&
    Sprite.bit (Sprite.byteAt (spotted key).memory 0 0) 0)) = true
  rw [h0]
  decide

theorem redraw_spotted (key : Random.Key) : (spotted key).step.redraw = true := by
  rw [step_spotted, next, advance, drawSprite]

theorem sound_spotted (key : Random.Key) : (spotted key).step.tick.sound = 0 := by
  have hs : (spotted key).step.sound = 0 := by
    rw [step_spotted, next, advance, drawSprite]
    rfl
  rw [tick]
  simp only [hs]
  rfl

theorem frame_one (m : Machine) : m.frame 1 = m.step.tick := rfl

end Machine

namespace Host

/-- A program that draws four pixels into the corner, one cycle a turn. -/
def spot : Config where
  rom := "spot.ch8"
  content := some [0xD0, 0x01]
  scale := .integer 1
  pace := .integer 1

/-- What `spot` runs on once it is prepared. -/
def spotStage : Stage where
  rom := "spot.ch8"
  program := [0xD0, 0x01]
  scale := .integer 1
  scheme := .classic

def spotLoaded : Supervisor :=
  ((Supervisor.fresh 0 false).load (.bytes [0xD0, 0x01]) (some "spot.ch8")).1

theorem load_spot : spotLoaded.machine = .spotted (.ofSeed 0) ∧
    spot.load (Supervisor.fresh 0 false) = (spotLoaded, .ok [0xD0, 0x01]) := by
  have hi : (ProgramData.bytes [0xD0, 0x01]).image = .ok [0xD0, 0x01] := rfl
  obtain ⟨hm, ho⟩ :=
    Supervisor.load_of_le (Supervisor.fresh 0 false) hi (by decide) (some "spot.ch8")
  refine ⟨?_, ?_⟩
  · rw [spotLoaded, hm, Supervisor.machine_fresh]
    rfl
  · simp only [Config.load, spot, spotLoaded]
    generalize (Supervisor.fresh 0 false).load (.bytes [0xD0, 0x01]) (some "spot.ch8") = r at ho
    obtain ⟨s, result⟩ := r
    cases ho
    rfl

theorem prepare_spot : spot.prepare = .ok .classic := by
  rw [Config.prepare]
  show (Except.ok 440 >>= fun frequency => _) = _
  rw [Supervisor.ok_bind]
  have ht : ∃ tone, Tone.create 440 44100 0.2 1 = .ok tone := by
    rw [Tone.create, if_neg (by decide)]
    simp only
    rw [if_neg (by decide)]
    exact ⟨_, rfl⟩
  obtain ⟨tone, ht⟩ := ht
  show (Tone.create 440 44100 0.2 1 >>= fun _ => Argument.scheme spot.scheme) = _
  rw [ht, Supervisor.ok_bind]
  rfl

theorem run_spot (script : List (List Event)) :
    spot.run script = spot.play spotStage (Supervisor.fresh 0 false) spotLoaded 1
      (mixerCalls ++ windowCalls "spot.ch8" 1) script := by
  have hc : (journal spot.logLevel >>= fun j => Supervisor.create spot.seed spot.strict (.ok j)) =
      .ok (Supervisor.fresh 0 false) := by
    have hj : journal spot.logLevel = .ok {} := by
      rw [journal]
      show (Argument.level (.text Level.info.name) >>= _) = _
      rw [Argument.level, Level.ofText?_name]
      rfl
    rw [hj, Supervisor.ok_bind]
    exact Supervisor.create_ok (by decide) false {}
  simp only [Config.run, hc, load_spot.2, prepare_spot]
  rfl

theorem strict_spotLoaded : spotLoaded.strict = false := by
  have hi : (ProgramData.bytes [0xD0, 0x01]).image = .ok [0xD0, 0x01] := rfl
  have hm : (Supervisor.fresh 0 false).machine.loadImage [0xD0, 0x01] = .ok _ :=
    Machine.loadImage_of_le _ (by decide)
  simp only [spotLoaded, Supervisor.load, hi, hm, bind, Except.bind, pure, Except.pure]
  rfl

theorem runFrame_spot {s : Session} {key : Random.Key} (hm : s.supervisor.machine = .spotted key)
    (hs : s.supervisor.strict = false) (hn : s.pace = 1) (hp : s.paused = false) :
    ∃ s', s.runFrame = (s', none) ∧ s'.supervisor.machine = (Machine.spotted key).step.tick ∧
      s'.running = s.running ∧ s'.paused = s.paused ∧ s'.playing = s.playing := by
  have hw : s.supervisor.machine.fetch = 0xD001 := by
    rw [hm, Machine.spotted, Machine.fetch_loaded _ (by decide)]
    rfl
  obtain ⟨ran, ho⟩ := Supervisor.runFrame_one_ok hs (by rw [hw]; decide) (by rw [hw]; decide)
  have hf := Supervisor.machine_runFrame_ok hs ho
  rw [hm, Machine.frame_one] at hf
  have hc : Argument.frameLength (.integer s.pace) = .ok 1 := by rw [hn]; rfl
  cases hr : s.supervisor.runFrame 1 with
  | mk supervisor result =>
  rw [hr] at ho hf
  cases ho
  refine ⟨{ s with supervisor }, ?_, hf, rfl, rfl, rfl⟩
  simp only [Session.runFrame, hp, hc, hr, Bool.false_eq_true, ↓reduceIte]

theorem turn_spot {s : Session} {key : Random.Key} (hm : s.supervisor.machine = .spotted key)
    (hs : s.supervisor.strict = false) (hn : s.pace = 1) (hp : s.paused = false)
    (hq : s.playing = false) :
    ∃ s' p, s.turn spotStage [] = (s', [.draw p, .flip], none) ∧ p.pixel 0 0 = [0, 255, 0] ∧
      s'.running = s.running ∧ s'.paused = false ∧ s'.playing = false := by
  obtain ⟨s₁, hf, hm', hr', hp', hq'⟩ := runFrame_spot hm hs hn hp
  have hs' : s₁.supervisor.machine.sound = 0 := by rw [hm', Machine.sound_spotted]
  have hd : s₁.supervisor.machine.redraw = true := by
    rw [hm', Machine.redraw_tick, Machine.redraw_spotted]
  have hpicture : spotStage.picture s₁.supervisor.machine.screen = .ok _ := picture_ok rfl _
  have hf' : (s.handleAll spotStage []).runFrame = (s₁, none) := hf
  have ht := turn_drawn hf' (hq'.trans hq) hs' hd hpicture
  refine ⟨_, _, ht, ?_, ?_, ?_, ?_⟩
  · show Bitmap.colour [0, 255, 0] [0, 0, 0]
      ((Bitmap.ofScreen s₁.supervisor.machine.screen).cell 0 0) = _
    rw [hm', Machine.screen_tick]
    show Bitmap.colour [0, 255, 0] [0, 0, 0]
      (if (Machine.spotted key).step.screen.pixel 0 0 then 1 else 0) = _
    rw [Machine.pixel_spotted]
    rfl
  · exact hr'
  · exact hp'.trans hp
  · exact hq'.trans hq

/-- A turn to draw in, and a turn in which the host pauses and resets. -/
def interrupted : List (List Event) :=
  [[], [.keyDown .pause, .keyDown .reset]]

theorem run_interrupted : ∃ last p, p.pixel 0 0 = [0, 255, 0] ∧
    (spot.run interrupted).machine = some (Supervisor.fresh 0 false, last) ∧
    (spot.run interrupted).error = none ∧
    (spot.run interrupted).turns = [[.draw p, .flip], [.quit]] := by
  have hm : (spotLoaded.note .info .controls).machine = .spotted (.ofSeed 0) := by
    rw [Supervisor.machine_note, load_spot.1]
  have hs : (spotLoaded.note .info .controls).strict = false := by
    rw [Supervisor.strict_note, strict_spotLoaded]
  obtain ⟨s₁, p, ht₁, hp, hr, hpaused, hplaying⟩ :=
    turn_spot (s := { supervisor := spotLoaded.note .info .controls, pace := 1 }) hm hs rfl rfl rfl
  obtain ⟨s₂, ht₂, hr₂⟩ := turn_pause_reset spotStage hpaused hplaying
  have hr₁ : s₁.running = true := hr
  have hl : Session.loop spotStage { supervisor := spotLoaded.note .info .controls, pace := 1 }
      interrupted = (s₂, [[.draw p, .flip], []], none) := by
    simp only [interrupted, Session.loop, ht₁, ht₂, hr₂, hr₁, ↓reduceIte]
  refine ⟨s₂.supervisor.noteSummary spot.elapsed, p, hp, ?_⟩
  rw [run_spot, play_of_loop hl]
  exact ⟨rfl, rfl, rfl⟩

theorem window_interrupted {p : Picture}
    (ht : (spot.run interrupted).turns = [[.draw p, .flip], [.quit]]) :
    spot.window interrupted = { shown := some p, outlived := true } := by
  rw [Config.window, ht]
  rfl

theorem window_shows_iff_interrupted : ∃ first last,
    (spot.run interrupted).machine = some (first, last) ∧ (spot.run interrupted).error = none ∧
      (Shows spot.picture (spot.window interrupted).shown last.machine.screen ↔
        ¬ ((spot.window interrupted).outlived = true ∧
          ∃ p, (spot.window interrupted).shown = some p ∧ spot.picture Screen.blank ≠ .ok p)) := by
  obtain ⟨last, p, -, hm, he, -⟩ := run_interrupted
  exact ⟨_, last, hm, he, window_shows_iff hm he⟩

theorem window_outlives_reset : ∃ first last,
    (spot.run interrupted).machine = some (first, last) ∧ (spot.run interrupted).error = none ∧
      ¬ Shows spot.picture (spot.window interrupted).shown last.machine.screen := by
  obtain ⟨last, p, hp, hm, he, ht⟩ := run_interrupted
  refine ⟨_, last, hm, he, ?_⟩
  have hw := window_interrupted ht
  have hb := (tracks_run hm he).blank (by rw [hw])
  have hs : spot.picture = spotStage.picture := picture_eq rfl rfl
  rw [hw, hb, hs, Shows, picture_ok (k := 1) rfl]
  intro he
  have hq := congrArg (fun q => q.pixel 0 0) (Except.ok.inj he)
  simp only [hp] at hq
  exact absurd hq (by decide)

end Host

end Chip8
