import Chip8.Host.Course
import Chip8.Proofs.History
import Chip8.Proofs.Redraw
import Chip8.Proofs.SupervisedRun
import Chip8.Proofs.Window

/-! The course of a session. It is made of the turns of the loop, it takes the turns of the script up to
the first that ends the session, and what each turn keeps holds at the end of every turn of it.

* `loop_eq` and `run_of_opening`: what the loop and a run keep of the course;
* `course_kept`, `left_kept`: the induction over a course;
* `complete_take`: a turn in full, when its pace and the size of its pictures make sense;
* `followed_of_opening`: what holds of the supervisor that a session begins with. -/

namespace Chip8

namespace Supervisor

/-- The only errors of a machine at work are faults. -/
theorem error_runFrame {s : Supervisor} {n : Nat} {e : Error} (h : (s.runFrame n).2 = .error e) :
    ∃ f pc word, e = .execution f pc word := by
  obtain ⟨m, f, -, -, he, -⟩ := endsIn_runFrame h
  exact ⟨f, _, _, he⟩

/-- Bytes that fit are loaded. -/
theorem load_bytes (s : Supervisor) {program : List UInt8}
    (h : program.length ≤ Machine.maxProgramSize) (source : Option String) :
    (s.load (.bytes program) source).1.machine = s.machine.loaded program ∧
      (s.load (.bytes program) source).2 = .ok () :=
  load_of_le s rfl h source

end Supervisor

namespace Host

variable {stage : Stage} {s s' : Session}

/-! ## Turns in a row -/

theorem take_eq {events : List Event} {left : Session} {calls : List Call} {error : Option Error}
    (h : s.turn stage events = (left, calls, error)) :
    s.take stage events = ⟨events, s.handleAll stage events, calls, error, left⟩ := by
  rw [Session.take, h]

theorem course_cons (stage : Stage) (s : Session) (events : List Event) (rest : List (List Event)) :
    s.course stage (events :: rest) = s.take stage events ::
      if (s.take stage events).error.isNone && (s.take stage events).left.running then
        (s.take stage events).left.course stage rest
      else [] := rfl

theorem leftBy_cons (s : Session) (t : Turn) (turns : List Turn) :
    leftBy s (t :: turns) = leftBy t.left turns := by
  rw [leftBy, leftBy, List.getLast?_cons]
  cases turns.getLast? <;> rfl

theorem leftBy_concat (s : Session) (turns : List Turn) (t : Turn) :
    leftBy s (turns ++ [t]) = t.left := by
  rw [leftBy, List.getLast?_concat]
  rfl

theorem tones_append (turns turns' : List Turn) :
    tones (turns ++ turns') = tones turns ++ tones turns' := by
  rw [tones, List.flatMap_append, List.filterMap_append, tones, tones]

theorem tones_singleton (t : Turn) : tones [t] = t.calls.filterMap Call.tone? := by
  simp [tones]

/-- The loop ends where the course does, with the calls of its turns and the error of the last. -/
theorem loop_eq (stage : Stage) (s : Session) (script : List (List Event)) :
    s.loop stage script = (leftBy s (s.course stage script), (s.course stage script).map Turn.calls,
      (s.course stage script).getLast?.bind Turn.error) := by
  induction script generalizing s with
  | nil => rfl
  | cons events rest ih =>
    cases ht : s.turn stage events with
    | mk left result =>
    obtain ⟨calls, error⟩ := result
    rw [course_cons, take_eq ht]
    cases error with
    | some e =>
      simp only [Session.loop, ht]
      rfl
    | none =>
      cases hr : left.running with
      | false =>
        simp only [Session.loop, ht, hr]
        rfl
      | true =>
        simp only [Session.loop, ht, hr, ih, Option.isNone_none, Bool.and_self, ↓reduceIte,
          leftBy_cons, List.map_cons, List.getLast?_cons]
        cases (left.course stage rest).getLast? <;> rfl

/-- A course whose turns stop at the events that say so takes the turns of the script up to there. -/
theorem events_course {script : List (List Event)}
    (h : ∀ t ∈ s.course stage script, t.error = none ∧ t.left.running = !stopping t.events) :
    (s.course stage script).map Turn.events = taken script := by
  induction script generalizing s with
  | nil => rfl
  | cons events rest ih =>
    rw [course_cons] at h ⊢
    obtain ⟨he, hr⟩ := h _ List.mem_cons_self
    have hevents : (s.take stage events).events = events := rfl
    rw [hevents] at hr
    rw [he, hr] at h ⊢
    rw [List.map_cons, hevents, taken]
    cases hstop : stopping events with
    | true => rfl
    | false =>
      rw [hstop] at h
      exact congrArg _ (ih fun t hm => h t (List.mem_cons_of_mem _ hm))

/-- What holds of a session and the turns behind it, and is kept by each turn of a running session, holds
before and behind every turn of a course. -/
theorem course_kept {P : Session → List Turn → Prop}
    (hturn : ∀ s past events, s.running = true → P s past →
      P (s.take stage events).left (past ++ [s.take stage events]))
    {past : List Turn} (hr : s.running = true) (hs : P s past) {script : List (List Event)}
    {turns later : List Turn} {t : Turn} (hc : s.course stage script = turns ++ t :: later) :
    ∃ s', s'.running = true ∧ P s' (past ++ turns) ∧ t = s'.take stage t.events := by
  induction script generalizing s past turns with
  | nil => exact absurd hc (by simp [Session.course])
  | cons events rest ih =>
    rw [course_cons] at hc
    cases turns with
    | nil =>
      obtain ⟨ht, -⟩ := List.cons.inj hc
      refine ⟨s, hr, ?_, ?_⟩
      · rwa [List.append_nil]
      · rw [← ht]
        rfl
    | cons t₀ turns =>
      rw [List.cons_append] at hc
      obtain ⟨ht, hlater⟩ := List.cons.inj hc
      subst ht
      split at hlater
      · rename_i hgo
        have hleft := hturn s past events hr hs
        obtain ⟨s', hr', hs', ht'⟩ := ih (Bool.and_eq_true_iff.1 hgo).2 hleft hlater
        refine ⟨s', hr', ?_, ht'⟩
        rwa [List.append_assoc] at hs'
      · exact absurd hlater (by simp)

/-- Where the turns before do not matter, what each turn keeps holds behind every turn of a course. -/
theorem left_kept {P : Session → Prop} (hturn : ∀ s events, P s → P (s.take stage events).left)
    (hs : P s) {script : List (List Event)} {t : Turn} (ht : t ∈ s.course stage script) :
    P t.left := by
  induction script generalizing s with
  | nil => exact absurd ht List.not_mem_nil
  | cons events rest ih =>
    rw [course_cons] at ht
    rcases List.mem_cons.1 ht with rfl | hlater
    · exact hturn s events hs
    · split at hlater
      · exact ih (hturn s events hs) hlater
      · exact absurd hlater List.not_mem_nil

/-! ## One turn in full -/

namespace Session

theorem running_handle (stage : Stage) (s : Session) (e : Event) :
    (s.handle stage e).running = (s.running && !e.stops) := by
  cases e with
  | keyDown key => cases key <;> simp [handle, press, restart, setPace, note, Event.stops]
  | keyUp key => cases key <;> simp [handle, Event.stops]
  | _ => simp [handle, Event.stops]

theorem running_handleAll (stage : Stage) (s : Session) (events : List Event) :
    (s.handleAll stage events).running = (s.running && !stopping events) := by
  induction events generalizing s with
  | nil => exact (Bool.and_true _).symm
  | cons e rest ih =>
    show ((s.handle stage e).handleAll stage rest).running = _
    rw [ih, running_handle, stopping, stopping, List.any_cons, Bool.not_or, Bool.and_assoc]

/-- What each event keeps, the events of a turn keep. -/
theorem handleAll_kept {P : Session → Prop} (hP : ∀ s e, P s → P (s.handle stage e)) (hs : P s)
    (events : List Event) : P (s.handleAll stage events) := by
  induction events generalizing s with
  | nil => exact hs
  | cons e rest ih => exact ih (hP s e hs)

theorem playing_handle (stage : Stage) (s : Session) (e : Event) :
    (s.handle stage e).playing = s.playing := by
  cases e with
  | keyDown key => cases key <;> rfl
  | keyUp key => cases key <;> rfl
  | _ => rfl

theorem playing_handleAll (stage : Stage) (s : Session) (events : List Event) :
    (s.handleAll stage events).playing = s.playing :=
  handleAll_kept (fun s' e h => (s'.playing_handle stage e).trans h) rfl events

theorem InPace.handle {pace : Int} (h : s.InPace pace) (stage : Stage) (e : Event) :
    (s.handle stage e).InPace pace := by
  obtain ⟨hlow, hhigh⟩ := h
  cases e with
  | keyDown key =>
    cases key with
    | faster =>
      show 1 ≤ min 100 (s.pace + 2) ∧ min 100 (s.pace + 2) ≤ max 100 pace
      omega
    | slower =>
      show 1 ≤ max 1 (s.pace - 2) ∧ max 1 (s.pace - 2) ≤ max 100 pace
      omega
    | _ => exact ⟨hlow, hhigh⟩
  | keyUp key => cases key <;> exact ⟨hlow, hhigh⟩
  | _ => exact ⟨hlow, hhigh⟩

theorem InPace.handleAll {pace : Int} (h : s.InPace pace) (stage : Stage) (events : List Event) :
    (s.handleAll stage events).InPace pace :=
  handleAll_kept (P := fun s => s.InPace pace) (fun _ e hs => hs.handle stage e) h events

theorem frameLength_of_pos {pace : Int} (h : ¬ pace ≤ 0) :
    Argument.frameLength (.integer pace) = .ok pace.toNat := by
  simp only [Argument.frameLength, Value.toInt?, if_neg h]

theorem framed_runFrame {pace : Int} (h : s.InPace pace) :
    ∃ s', s.runFrame = (s', none) ∧ s.Framed s' := by
  have hlow := h.1
  have hlength := frameLength_of_pos (show ¬ s.pace ≤ 0 by omega)
  have hn : (s.pace.toNat : Int) = s.pace := by omega
  cases hp : s.paused with
  | true => exact ⟨s, by rw [runFrame, if_pos hp], .paused hp⟩
  | false =>
    cases hr : s.supervisor.runFrame s.pace.toNat with
    | mk supervisor result =>
    cases result with
    | ok ran =>
      refine ⟨{ s with supervisor }, ?_, .ran hp hn hr⟩
      simp only [runFrame, hp, hlength, hr, Bool.false_eq_true, ↓reduceIte]
    | error e =>
      obtain ⟨f, pc, word, rfl⟩ := Supervisor.error_runFrame (s := s.supervisor) (by rw [hr])
      refine ⟨_, ?_, .failed hp hn hr⟩
      simp only [runFrame, hp, hlength, hr, Error.ofMachine, Bool.false_eq_true, ↓reduceIte]
      rfl

/-- A frame changes the supervisor, and perhaps pauses the session. -/
theorem Framed.only (h : s.Framed s') :
    ∃ supervisor paused, s' = { s with supervisor, paused } := by
  cases h with
  | paused hp => exact ⟨s.supervisor, s.paused, rfl⟩
  | @ran n ran supervisor hp hn hr => exact ⟨supervisor, s.paused, rfl⟩
  | failed hp hn hr => exact ⟨_, true, rfl⟩

theorem updateTone_eq (s : Session) : s.updateTone =
    ({ s with playing := s.supervisor.machine.sounding },
      if s.supervisor.machine.sounding = s.playing then []
      else if s.supervisor.machine.sounding then [.play] else [.stop]) := by
  obtain ⟨supervisor, pace, running, paused, playing⟩ := s
  unfold updateTone
  cases supervisor.machine.sounding <;> cases playing <;> rfl

theorem quit_not_mem_updateTone (s : Session) : Call.quit ∉ s.updateTone.2 := by
  unfold updateTone
  split
  · simp
  split <;> simp

theorem updateWindow_eq {k : Nat} (hk : Argument.scale stage.scale = .ok k) (s : Session) :
    ∃ shown, s.updateWindow stage =
        ({ s with supervisor := s.supervisor.consumeRedraw.1 }, shown, none) ∧
      ∀ call ∈ shown, call.tone? = none ∧ call ≠ .quit := by
  cases hr : s.supervisor.machine.redraw with
  | false =>
    refine ⟨[], ?_, by simp⟩
    rw [updateWindow_idle hr, Supervisor.consumeRedraw, hr]
    rfl
  | true =>
    refine ⟨_, updateWindow_drawn hr (picture_ok hk _), ?_⟩
    simp [Call.tone?]

theorem supervisor_updateWindow (stage : Stage) (s : Session) :
    (s.updateWindow stage).1.supervisor = s.supervisor.consumeRedraw.1 := by
  cases hr : s.supervisor.machine.redraw with
  | false =>
    rw [updateWindow_idle hr, Supervisor.consumeRedraw, hr]
    rfl
  | true =>
    cases hp : stage.picture s.supervisor.machine.screen with
    | ok p => rw [updateWindow_drawn hr hp]
    | error e => rw [updateWindow_failed hr hp]

/-- Behind the events of a turn, its frame is all that happens to the supervisor, but that the flag is
asked for if no error ends the turn before. -/
theorem supervisor_take (stage : Stage) (s : Session) (events : List Event) :
    (s.take stage events).left.supervisor = (s.handleAll stage events).runFrame.1.supervisor ∨
      (s.take stage events).left.supervisor =
        (s.handleAll stage events).runFrame.1.supervisor.consumeRedraw.1 := by
  unfold take turn
  cases hrun : (s.handleAll stage events).runFrame with
  | mk s₁ error =>
  cases error with
  | some e => exact .inl rfl
  | none =>
    have hw := s₁.updateTone.1.supervisor_updateWindow stage
    rw [supervisor_updateTone] at hw
    exact .inr hw

theorem playing_settled (s : Session) :
    s.settled.playing = s.settled.supervisor.machine.sounding := by
  show s.supervisor.machine.sounding = s.supervisor.consumeRedraw.1.machine.sounding
  rw [Supervisor.machine_consumeRedraw]
  rfl

end Session

/-- Nothing can go wrong in a turn at a pace that makes sense, as long as pictures can be drawn. -/
theorem complete_take {k : Nat} (hk : Argument.scale stage.scale = .ok k) {pace : Int}
    (h : s.InPace pace) (events : List Event) : (s.take stage events).Complete := by
  obtain ⟨s₁, hrun, hf⟩ := Session.framed_runFrame (h.handleAll stage events)
  obtain ⟨shown, hw, hshown⟩ := s₁.updateTone.1.updateWindow_eq hk
  have hquiet : shown.filterMap Call.tone? = [] := by
    rw [List.filterMap_eq_nil_iff]
    exact fun call hm => (hshown call hm).1
  have ht : s.turn stage events = (s₁.settled, s₁.updateTone.2 ++ shown, none) := by
    simp only [Session.turn, hrun, hw]
    rw [Session.updateTone_eq]
    rfl
  have hplaying : s₁.playing = (s.handleAll stage events).playing := by
    obtain ⟨supervisor, paused, rfl⟩ := hf.only
    rfl
  rw [take_eq ht]
  refine ⟨rfl, ⟨s₁, hf, rfl⟩, ?_, ?_⟩
  · show (s₁.updateTone.2 ++ shown).filterMap Call.tone? =
      if s₁.supervisor.machine.sounding = (s.handleAll stage events).playing then []
      else [s₁.supervisor.machine.sounding]
    rw [List.filterMap_append, hquiet, List.append_nil, Session.updateTone_eq, hplaying]
    cases s₁.supervisor.machine.sounding <;> cases (s.handleAll stage events).playing <;> rfl
  · show Call.quit ∉ s₁.updateTone.2 ++ shown
    intro hm
    rcases List.mem_append.1 hm with hm | hm
    · exact s₁.quit_not_mem_updateTone hm
    · exact (hshown _ hm).2 rfl

/-! ## Openings -/

theorem toInt?_of_integer {v : Value} {i : Int} (h : Argument.integer v = .ok i) :
    v.toInt? = some i := by
  unfold Argument.integer at h
  cases hv : v.toInt? with
  | none => rw [hv] at h; cases h
  | some j => rw [hv] at h; rw [Except.ok.inj h]

theorem integer_of_toInt? {v : Value} {i : Int} (h : v.toInt? = some i) :
    Argument.integer v = .ok i := by
  rw [Argument.integer, h]

theorem closeLast_concat (turns : List (List Call)) (calls : List Call) :
    closeLast (turns ++ [calls]) = turns ++ [calls ++ [.quit]] := by
  induction turns with
  | nil => rfl
  | cons first rest ih =>
    cases rest with
    | nil => rfl
    | cons next rest => exact congrArg (first :: ·) ih

/-- The steps of an opening, in order. -/
theorem steps_of_opening {c : Config} {o : Opening} (ho : c.opening = .ok o) :
    ∃ j first program scale scheme pace, journal c.logLevel = .ok j ∧
      Supervisor.create c.seed c.strict (.ok j) = .ok first ∧
      c.load first = ((c.load first).1, .ok program) ∧ c.scale.toInt? = some scale ∧
      c.prepare = .ok scheme ∧ c.pace.toInt? = some pace ∧
      o = ⟨first, mixerCalls ++ windowCalls c.rom scale, ⟨c.rom, program, c.scale, scheme⟩,
        { supervisor := (c.load first).1.note .info .controls, pace }⟩ := by
  rw [Config.opening] at ho
  obtain ⟨j, hj, ho⟩ := Supervisor.ok_of_bind ho
  obtain ⟨first, hfirst, ho⟩ := Supervisor.ok_of_bind ho
  obtain ⟨program, hprogram, ho⟩ := Supervisor.ok_of_bind ho
  obtain ⟨scale, hscale, ho⟩ := Supervisor.ok_of_bind ho
  obtain ⟨scheme, hscheme, ho⟩ := Supervisor.ok_of_bind ho
  obtain ⟨pace, hpace, ho⟩ := Supervisor.ok_of_bind ho
  cases ho
  refine ⟨j, first, program, scale, scheme, pace, hj, hfirst, ?_, toInt?_of_integer hscale, hscheme,
    toInt?_of_integer hpace, rfl⟩
  rw [← hprogram]

/-- A run that is opened plays its session. -/
theorem run_eq_play {c : Config} {o : Opening} (ho : c.opening = .ok o)
    (script : List (List Event)) : ∃ s pace, o.session = { supervisor := s.note .info .controls, pace } ∧
      c.run script = c.play o.stage o.first s pace o.setup script := by
  obtain ⟨j, first, program, scale, scheme, pace, hj, hfirst, hload, hscale, hscheme, hpace, rfl⟩ :=
    steps_of_opening ho
  have hcreate : (journal c.logLevel >>= fun j => Supervisor.create c.seed c.strict (.ok j)) =
      .ok first := by
    rw [hj, Supervisor.ok_bind, hfirst]
  refine ⟨(c.load first).1, pace, rfl, ?_⟩
  rw [Config.run, hcreate]
  simp only
  rw [hload]
  simp only [hscale, hscheme, hpace]

/-- It closes behind the last turn. -/
theorem run_of_opening {c : Config} {o : Opening} (ho : c.opening = .ok o)
    {script : List (List Event)} {turns : List (List Call)}
    (hl : o.session.loop o.stage script = (s, turns, none)) : c.run script =
      { setup := o.setup, turns := closeLast turns,
        machine := some (o.first, s.supervisor.noteSummary c.elapsed) } := by
  obtain ⟨supervisor, pace, hs, hrun⟩ := run_eq_play ho script
  rw [hs] at hl
  rw [hrun, play_of_loop hl]

/-- A run without an error has a loop without one. -/
theorem loop_of_run {c : Config} {o : Opening} (ho : c.opening = .ok o) {script : List (List Event)}
    (he : (c.run script).error = none) :
    ∃ s turns, o.session.loop o.stage script = (s, turns, none) := by
  obtain ⟨supervisor, pace, hs, hrun⟩ := run_eq_play ho script
  rw [hrun, Config.play, ← hs] at he
  cases hl : o.session.loop o.stage script with
  | mk s result =>
  obtain ⟨turns, error⟩ := result
  cases error with
  | none => exact ⟨s, turns, rfl⟩
  | some e =>
    rw [hl] at he
    cases he

/-- A session that a run has been opened with: it has not played a tone or been paused, and its program
can be loaded again. -/
structure Opened (c : Config) (pace : Int) (o : Opening) : Prop where
  opening : c.opening = .ok o
  unclosed : Call.quit ∉ o.setup
  scale : ∃ k, Argument.scale o.stage.scale = .ok k
  fits : o.stage.program.length ≤ Machine.maxProgramSize
  session : ∃ supervisor, o.session = { supervisor, pace }
  machine : ∃ key, o.session.supervisor.machine = (Machine.initial key).loaded o.stage.program

theorem course_of_opening {c : Config} {o : Opening} (ho : c.opening = .ok o)
    (script : List (List Event)) : c.course script = o.session.course o.stage script := by
  rw [Config.course, ho]

theorem scale_of_toInt? {v : Value} {k : Int} (h : v.toInt? = some k) (hk : 1 ≤ k) :
    Argument.scale v = .ok k.toNat := by
  have hnot : ¬ k < 1 := by omega
  cases v <;> cases h <;> simp only [Argument.scale, Value.toInt?, if_neg hnot]

/-- The program of a configuration is loaded if there is one. -/
theorem supervisor_load (c : Config) (s : Supervisor) : (c.load s).1 = s ∨
    ∃ program, (c.load s).1 = (s.load (.bytes program) (some c.rom)).1 := by
  unfold Config.load
  split
  · exact .inl rfl
  · rename_i program _
    refine .inr ⟨program, ?_⟩
    split <;> rename_i heq <;> rw [heq]

theorem running_of_opening {c : Config} {o : Opening} (ho : c.opening = .ok o) :
    o.session.running = true := by
  obtain ⟨_, _, _, _, _, _, -, -, -, -, -, -, rfl⟩ := steps_of_opening ho
  rfl

/-- What a host cannot make false holds of the supervisor that a session begins with, if it holds of a new
one at the configured level, and the controls can be noted. -/
theorem followed_of_opening {P : Supervisor → History → Prop} (hP : Followed P) {c : Config}
    {o : Opening} (ho : c.opening = .ok o)
    (hcreate : ∀ level s, Argument.level c.logLevel = .ok level →
      Supervisor.create c.seed c.strict (.ok { logger := { threshold := level } }) = .ok s → P s {})
    (hnote : ∀ s, P s {} → P (s.note .info .controls) {}) : P o.session.supervisor {} := by
  obtain ⟨j, first, program, scale, scheme, pace, hj, hfirst, -, -, -, -, rfl⟩ := steps_of_opening ho
  rw [journal] at hj
  obtain ⟨level, hlevel, ⟨⟩⟩ := Supervisor.ok_of_bind hj
  have hstart := hcreate level first hlevel hfirst
  refine hnote _ ?_
  rcases supervisor_load c first with hl | ⟨program, hl⟩ <;> rw [hl]
  · exact hstart
  · exact hP.loadData hstart _ _

theorem heeded_of_opening {P : Journal → Prop} (hP : Journal.Heeded P) {c : Config} {o : Opening}
    (ho : c.opening = .ok o)
    (hj : ∀ level, Argument.level c.logLevel = .ok level → P { logger := { threshold := level } }) :
    P o.session.supervisor.journal := by
  refine followed_of_opening hP.followed ho ?_ fun s hs => hP.line hs _ rfl
  intro level s hlevel hs
  obtain ⟨j, key, ⟨⟩, rfl⟩ := Supervisor.create_eq hs
  exact hP.line (hj level hlevel) Level.debug.name (n := .machineReset) rfl

/-- The program of a configuration that makes sense is loaded. -/
theorem load_of_fits {c : Config} {program : List UInt8} (hc : c.content = some program)
    (hfits : program.length ≤ Machine.maxProgramSize) (first : Supervisor) :
    c.load first = ((first.load (.bytes program) (some c.rom)).1, .ok program) := by
  obtain ⟨-, hload⟩ := first.load_bytes hfits (some c.rom)
  simp only [Config.load, hc]
  cases hr : first.load (.bytes program) (some c.rom) with
  | mk s r =>
    rw [hr] at hload
    cases hload
    rfl

/-- A configuration that makes sense can be opened. -/
theorem opened_of_valid {c : Config} {pace : Int} (h : c.Valid pace) : ∃ o, Opened c pace o := by
  obtain ⟨⟨program, hcontent, hfits⟩, ⟨seed, key, hseed, hkey⟩, ⟨level, hlevel⟩, ⟨scheme, hscheme⟩,
    ⟨frequency, tone, hfrequency, htone⟩, ⟨scale, hscale, hone⟩, hpace, -⟩ := h
  have hj : journal c.logLevel = .ok { logger := { threshold := level } } := by
    rw [journal, hlevel]
    rfl
  obtain ⟨first, hfirst⟩ : ∃ first, Supervisor.create c.seed c.strict
      (.ok { logger := { threshold := level } }) = .ok first := by
    rw [Supervisor.create, hseed, Supervisor.ok_bind, Supervisor.ok_bind, hkey]
    exact ⟨_, rfl⟩
  have hload := load_of_fits hcontent hfits first
  have hprepare : c.prepare = .ok scheme := by
    rw [Config.prepare, hfrequency, Supervisor.ok_bind, htone, Supervisor.ok_bind, hscheme]
  obtain ⟨key, hkey⟩ := Supervisor.machine_create hfirst
  obtain ⟨hmachine, -⟩ := first.load_bytes hfits (some c.rom)
  let supervisor := (first.load (.bytes program) (some c.rom)).1.note .info .controls
  refine ⟨⟨first, mixerCalls ++ windowCalls c.rom scale, ⟨c.rom, program, c.scale, scheme⟩,
    { supervisor, pace }⟩, ?_, ?_, ⟨_, scale_of_toInt? hscale hone⟩, hfits, ⟨_, rfl⟩, ⟨key, ?_⟩⟩
  · rw [Config.opening, hj, Supervisor.ok_bind, hfirst, Supervisor.ok_bind, hload, Supervisor.ok_bind,
      integer_of_toInt? hscale, Supervisor.ok_bind, hprepare, Supervisor.ok_bind,
      integer_of_toInt? hpace]
    rfl
  · simp [mixerCalls, windowCalls]
  · rw [← hkey]
    exact hmachine

end Host

end Chip8
