import Chip8.Proofs.Commuting
import Chip8.Proofs.Safety

/-! The keypad of a session is what the host reported last. Frames, faults, pauses and changes of the pace
pass it by; a reset, which takes the machine back to power-on, releases all keys.

* `held_handle` and `held_course`: a key is down exactly if the last event that concerned it was its going
  down, behind one event and, by induction, behind all turns of a course;
* `keys_held_iff`: the same for the runs of a configuration, where each key has its place on the keyboard;
* `reset_releases`: a key that is held over a reset is up from there on. -/

namespace Chip8

namespace Supervisor

theorem keys_runFrame (s : Supervisor) (n : Nat) : (s.runFrame n).1.machine.keys = s.machine.keys := by
  have hstep : ∀ m : Machine, m.keys = s.machine.keys → m.step.keys = s.machine.keys :=
    fun m h => (Machine.keys_step m).trans h
  have htick : ∀ m : Machine, m.keys = s.machine.keys → m.tick.keys = s.machine.keys :=
    fun _ h => h
  exact runFrame_kept hstep htick rfl n

theorem keys_load (s : Supervisor) (data : ProgramData) (source : Option String) :
    (s.load data source).1.machine.keys = s.machine.keys := by
  rcases s.machine_load data source with ⟨image, hl⟩ | hl
  · rw [hl, Machine.keys_loaded]
  · rw [hl]

theorem keys_consumeRedraw (s : Supervisor) : s.consumeRedraw.1.machine.keys = s.machine.keys := by
  rw [machine_consumeRedraw]

end Supervisor

namespace Host

variable {stage : Stage} {s : Session}

/-! ## The end of a turn -/

namespace Session

theorem keys_runFrame (s : Session) :
    s.runFrame.1.supervisor.machine.keys = s.supervisor.machine.keys := by
  rcases s.machine_runFrame with hm | ⟨n, hm⟩ <;> rw [hm]
  exact s.supervisor.keys_runFrame n

/-- Behind the events of a turn, nothing in it touches the keypad, be it that an error ends it. -/
theorem keys_take (stage : Stage) (s : Session) (events : List Event) :
    (s.take stage events).left.supervisor.machine.keys =
      (s.handleAll stage events).supervisor.machine.keys := by
  rcases s.supervisor_take stage events with hs | hs <;> rw [hs]
  · exact keys_runFrame _
  · exact (Supervisor.keys_consumeRedraw _).trans (keys_runFrame _)

/-! ## Events -/

theorem get_handle (stage : Stage) (s : Session) (e : Event) (k : Register) :
    (s.handle stage e).supervisor.machine.keys.get k =
      if e.concerns k then decide (e = .keyDown (.pad k)) else s.supervisor.machine.keys.get k := by
  cases e with
  | keyDown key =>
    cases key with
    | pad key =>
      show (s.supervisor.machine.keys.set key.val true (Register.val_lt key)).get k = _
      rw [Keypad.get_set]
      by_cases hk : key = k <;> simp [Event.concerns, Event.reports, hk]
    | reset =>
      obtain ⟨memory, hm⟩ := machine_restart stage s
      rw [hm]
      show Keypad.released.get k = _
      rw [Keypad.get_released]
      simp [Event.concerns]
    | _ => simp [Event.concerns, Event.reports, handle, press, setPace, note, Supervisor.note]
  | keyUp key =>
    cases key with
    | pad key =>
      show (s.supervisor.machine.keys.set key.val false (Register.val_lt key)).get k = _
      rw [Keypad.get_set]
      by_cases hk : key = k <;> simp [Event.concerns, Event.reports, hk]
    | _ => simp [Event.concerns, Event.reports, handle]
  | focusLost =>
    show Keypad.released.get k = _
    rw [Keypad.get_released]
    simp [Event.concerns, Event.reports]
  | _ => simp [Event.concerns, Event.reports, handle]

end Session

/-- The keys that are down are those whose going down is the last of the events that concern them. -/
def Held (s : Session) (events : List Event) : Prop :=
  ∀ k, s.supervisor.machine.keys.get k = true ↔
    (events.filter (Event.concerns k)).getLast? = some (.keyDown (.pad k))

theorem held_handle (stage : Stage) {before : List Event} (h : Held s before) (e : Event) :
    Held (s.handle stage e) (before ++ [e]) := by
  intro k
  rw [Session.get_handle, List.filter_append]
  cases hc : e.concerns k with
  | true => simp [hc]
  | false => simpa [hc] using h k

theorem held_handleAll (stage : Stage) {before : List Event} (h : Held s before)
    (events : List Event) :
    Held (s.handleAll stage events) (before ++ events) := by
  induction events generalizing s before with
  | nil => rwa [List.append_nil]
  | cons e rest ih =>
    have hrest := ih (held_handle stage h e)
    rwa [List.append_assoc] at hrest

/-! ## Courses -/

theorem held_take {past : List Turn} (h : Held s (delivered past)) (events : List Event) :
    Held (s.take stage events).left (delivered (past ++ [s.take stage events])) := by
  have hd : delivered (past ++ [s.take stage events]) = delivered past ++ events := by
    rw [delivered, List.flatMap_append, List.flatMap_singleton]
    rfl
  intro k
  rw [s.keys_take, hd]
  exact held_handleAll stage h events k

theorem held_course (h : Held s []) (hr : s.running = true) {script : List (List Event)}
    {earlier later : List Turn} {t : Turn} (hc : s.course stage script = earlier ++ t :: later) :
    Held t.left (delivered (earlier ++ [t])) := by
  have hstart : Held s (delivered []) := h
  obtain ⟨s', -, hs, ht⟩ := course_kept (P := fun s past => Held s (delivered past))
    (fun _ _ events _ hs => held_take hs events) hr hstart hc
  rw [ht]
  exact held_take hs t.events

theorem keys_load (c : Config) (s : Supervisor) :
    (c.load s).1.machine.keys = s.machine.keys := by
  rcases supervisor_load c s with hl | ⟨program, hl⟩ <;> rw [hl]
  exact s.keys_load _ _

/-- A session begins with all keys up. -/
theorem held_of_opening {c : Config} {o : Opening} (ho : c.opening = .ok o) :
    Held o.session [] := by
  obtain ⟨j, first, program, scale, scheme, pace, -, hfirst, -, -, -, -, rfl⟩ := steps_of_opening ho
  obtain ⟨key, hkey⟩ := Supervisor.machine_create hfirst
  intro k
  show (c.load first).1.machine.keys.get k = true ↔ _
  rw [keys_load, hkey]
  show Keypad.released.get k = true ↔ _
  rw [Keypad.get_released]
  simp

theorem held_of_course {c : Config} {script : List (List Event)} {earlier later : List Turn} {t : Turn}
    (hc : c.course script = earlier ++ t :: later) : Held t.left (delivered (earlier ++ [t])) := by
  unfold Config.course at hc
  cases ho : c.opening with
  | error e =>
    rw [ho] at hc
    exact absurd hc (by simp)
  | ok o =>
    rw [ho] at hc
    exact held_course (held_of_opening ho) (running_of_opening ho) hc

/-! ## The keyboard -/

theorem mem_of_lookup {α β : Type} [DecidableEq α] {l : List (α × β)} {a : α} {b : β}
    (h : l.lookup a = some b) : (a, b) ∈ l := by
  obtain ⟨l₁, l₂, rfl, -⟩ := List.lookup_eq_some_iff.1 h
  exact List.mem_append_right l₁ List.mem_cons_self

theorem layout_covers : ∀ k : Register, ∃ p ∈ layout, Register.ofNat p.2 = k := by
  decide

theorem layout_inj : ∀ p ∈ layout, ∀ q ∈ layout,
    Register.ofNat p.2 = Register.ofNat q.2 → p.1 = q.1 := by
  decide

theorem ofName_layout : ∀ p ∈ layout, HostKey.ofName p.1 = .pad (Register.ofNat p.2) := by
  decide

theorem controls_ne_pad : ∀ p ∈ controls, ∀ k, p.2 ≠ .pad k := by
  decide

/-- Each key of the keypad has one place on the keyboard. -/
theorem exists_ofName_pad_iff (k : Register) : ∃ name, ∀ n, HostKey.ofName n = .pad k ↔ n = name := by
  obtain ⟨p, hp, hk⟩ := layout_covers k
  refine ⟨p.1, fun n => ⟨?_, ?_⟩⟩
  · intro h
    unfold HostKey.ofName at h
    split at h
    · rename_i key hlookup
      exact absurd h (controls_ne_pad _ (mem_of_lookup hlookup) k)
    split at h
    · rename_i key hlookup
      have hkey := HostKey.pad.inj h
      exact layout_inj _ (mem_of_lookup hlookup) p hp (hkey.trans hk.symm)
    · cases h
  · rintro rfl
    rw [ofName_layout p hp, hk]

/-! ## Runs -/

/-- The turns of a run are those of its loop. Behind each of them, a key of the keypad is down exactly if,
of all the events so far that report it and all resets, the last is its going down. Each key has one
place on the keyboard. -/
theorem keys_held_iff (c : Config) (script : List (List Event)) :
    (∀ o, c.opening = .ok o → o.session.loop o.stage script =
      (leftBy o.session (c.course script), (c.course script).map Turn.calls,
        (c.course script).getLast?.bind Turn.error)) ∧
    (∀ earlier t later, c.course script = earlier ++ t :: later →
      ∀ k, t.left.supervisor.machine.keys.get k = true ↔
        ((delivered (earlier ++ [t])).filter (Event.concerns k)).getLast? =
          some (.keyDown (.pad k))) ∧
    ∀ k, ∃ name, ∀ n, HostKey.ofName n = .pad k ↔ n = name := by
  refine ⟨fun o ho => ?_, fun _ _ _ hc => held_of_course hc, exists_ofName_pad_iff⟩
  rw [course_of_opening ho, loop_eq]

theorem course_spot {first : List Event} (h : stopping first = false) (second : List Event) :
    ∃ t₁ t₂, spot.course [first, second] = [t₁, t₂] ∧ t₁.events = first ∧ t₂.events = second := by
  obtain ⟨o, ho⟩ := opened_of_valid valid_spot
  exact ⟨_, _, course_pair ho valid_spot.pace.2 h second, rfl, rfl⟩

/-- A key that has gone down is held through a pause. -/
theorem keys_held_iff_paused : ∃ t₁ t₂,
    spot.course [[.keyDown (.ofName "w")], [.keyDown .pause]] = [t₁, t₂] ∧
      t₂.left.supervisor.machine.keys.get (Register.ofNat 5) = true := by
  have hgoes : stopping [.keyDown (.ofName "w")] = false := rfl
  obtain ⟨t₁, t₂, hc, ht₁, ht₂⟩ := course_spot hgoes [.keyDown .pause]
  refine ⟨t₁, t₂, hc, ((keys_held_iff spot _).2.1 [t₁] t₂ [] hc _).2 ?_⟩
  simp only [delivered, List.cons_append, List.nil_append, List.flatMap_cons, List.flatMap_nil, ht₁, ht₂]
  decide

/-- A key that has gone down is up behind a reset, though it is the last that was reported of it. -/
theorem reset_releases : ∃ t₁ t₂,
    spot.course [[.keyDown (.ofName "w")], [.keyDown .reset]] = [t₁, t₂] ∧
      t₂.left.supervisor.machine.keys.get (Register.ofNat 5) = false ∧
      ((delivered [t₁, t₂]).filter (Event.reports (Register.ofNat 5))).getLast? =
        some (.keyDown (.pad (Register.ofNat 5))) := by
  have hgoes : stopping [.keyDown (.ofName "w")] = false := rfl
  obtain ⟨t₁, t₂, hc, ht₁, ht₂⟩ := course_spot hgoes [.keyDown .reset]
  have hd : delivered [t₁, t₂] = [.keyDown (.ofName "w"), .keyDown .reset] := by
    simp only [delivered, List.flatMap_cons, List.flatMap_nil, ht₁, ht₂]
    rfl
  have hheld : Held t₂.left (delivered ([t₁] ++ [t₂])) := held_of_course hc
  refine ⟨t₁, t₂, hc, ?_, ?_⟩
  · rw [Bool.eq_false_iff, ne_eq, hheld (Register.ofNat 5)]
    show ((delivered [t₁, t₂]).filter _).getLast? ≠ _
    rw [hd]
    decide
  · rw [hd]
    decide

end Host

end Chip8
