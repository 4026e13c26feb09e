import Chip8.Proofs.Course
import Mathlib.Data.List.Chain

/-! A session is safe whatever comes in. Opened on a program that fits and on settings that make sense, it
goes through the turns of its script up to the first that ends it, each of them to its end, and only
then is it summed up, by one record in the log, and closed.

* `heeded_take`, `heeded_course`: what holds of the journal through a turn and through a course;
* `Steady.take` and `Steady.orderly`: what one turn keeps, and what it does;
* `orderly_course`: by induction, the same of every turn of a course;
* `sumsUp_noteSummary`, `SumsUp.once`: the record that is written at the end, and that it is the only one;
* `course_safe`: the course of a run, and the run where it is ended. -/

namespace Chip8

/-! ## Summaries -/

/-- Records of the level `INFO` are kept at the two lowest thresholds. -/
theorem Logger.enabled_info (l : Logger) :
    l.enabled Level.info.name = decide (l.threshold = .debug ∨ l.threshold = .info) := by
  rw [enabled, Level.ofTag, Level.ofText?_name]
  cases l.threshold <;> rfl

namespace Supervisor

/-- From a supervisor to the one that has summed it up. The log has one record more, if records of its
level are kept: the cycles, the time, and the tally of faults in the order of their kinds. Nothing else
changes. -/
structure SumsUp (s s' : Supervisor) (elapsed : Float) : Prop where
  record : ∃ faults : Tally, faults.Perm s.journal.faults ∧ (faults.Pairwise fun a b => a.1 ≤ b.1) ∧
    s'.journal.logger.entries.toList = s.journal.logger.entries.toList ++
      if s.journal.logger.threshold = .debug ∨ s.journal.logger.threshold = .info then
        [⟨s.journal.logger.now, "INFO", .summary s.cycles elapsed faults⟩]
      else []
  rest : ∃ entries, s' = { s with
    journal := { s.journal with logger := { s.journal.logger with entries } } }

theorem sumsUp_noteSummary (s : Supervisor) (elapsed : Float) :
    s.SumsUp (s.noteSummary elapsed) elapsed := by
  have henabled := s.journal.logger.enabled_info
  rw [noteSummary, Journal.noteSummary, Journal.note, Logger.note, Logger.log]
  by_cases h : s.journal.logger.threshold = .debug ∨ s.journal.logger.threshold = .info
  · rw [henabled, decide_eq_true h, if_pos rfl]
    refine ⟨⟨_, Tally.sorted_perm _, Tally.pairwise_sorted _, ?_⟩, _, rfl⟩
    rw [if_pos h]
    exact Array.toList_push
  · rw [henabled, decide_eq_false h, if_neg Bool.false_ne_true]
    refine ⟨⟨_, Tally.sorted_perm _, Tally.pairwise_sorted _, ?_⟩, _, rfl⟩
    rw [if_neg h]
    exact (List.append_nil _).symm

theorem SumsUp.getLast? {s s' : Supervisor} {elapsed : Float} (h : s.SumsUp s' elapsed)
    (hl : s.journal.logger.threshold = .debug ∨ s.journal.logger.threshold = .info) :
    ∃ faults : Tally, faults.Perm s.journal.faults ∧
      s'.journal.logger.entries.toList.getLast? =
        some ⟨s.journal.logger.now, "INFO", .summary s.cycles elapsed faults⟩ := by
  obtain ⟨faults, hperm, -, hentries⟩ := h.record
  refine ⟨faults, hperm, ?_⟩
  rw [hentries, if_pos hl]
  exact List.getLast?_concat

/-- What was not summed up before is summed up once, if at all. -/
theorem SumsUp.once {s s' : Supervisor} {elapsed : Float} (h : s.SumsUp s' elapsed)
    (hs : s.journal.Unsummed) :
    (s'.journal.logger.entries.toList.countP fun e => e.record.notice.isSummary) =
      if s.journal.logger.threshold = .debug ∨ s.journal.logger.threshold = .info then 1 else 0 := by
  obtain ⟨faults, -, -, hentries⟩ := h.record
  have hnone : (s.journal.logger.entries.toList.countP fun e => e.record.notice.isSummary) = 0 := by
    rw [List.countP_eq_zero]
    intro e he hsum
    rw [hs e he] at hsum
    cases hsum
  rw [hentries, List.countP_append, hnone, Nat.zero_add]
  split <;> rfl

end Supervisor

namespace Host

/-! ## Starts and stops -/

/-- Starts and stops in turn, beginning with a start; `on` is whether the last was a start. The `false` in
front stands for the silence at the beginning. -/
structure Alternating (tones : List Bool) (on : Bool) : Prop where
  chain : (false :: tones).IsChain (· ≠ ·)
  last : (false :: tones).getLast? = some on

theorem alternating_nil : Alternating [] false :=
  ⟨.singleton _, rfl⟩

/-- The next of them is the one that was not the last. -/
theorem Alternating.concat {tones : List Bool} {on : Bool} (h : Alternating tones on) {next : Bool}
    (hn : next ≠ on) : Alternating (tones ++ [next]) next where
  chain := by
    show (false :: tones ++ [next]).IsChain (· ≠ ·)
    rw [List.isChain_append]
    refine ⟨h.chain, .singleton _, ?_⟩
    intro x hx y hy
    rw [h.last] at hx
    cases hx
    cases hy
    exact hn.symm
  last := by
    show (false :: tones ++ [next]).getLast? = some next
    exact List.getLast?_concat

theorem Alternating.getLast? {tones : List Bool} {on : Bool} (h : Alternating tones on) :
    tones.getLast?.getD false = on := by
  have hl := h.last
  rw [List.getLast?_cons] at hl
  exact Option.some.inj hl

/-! ## The journal -/

variable {stage : Stage} {s : Session}

section Heeded

variable {P : Journal → Prop}

/-- What no line makes false but a summary, no event and no frame makes false. -/
theorem heeded_handle (hP : Journal.Heeded P) (stage : Stage) (hs : P s.supervisor.journal)
    (e : Event) :
    P (s.handle stage e).supervisor.journal := by
  cases e with
  | keyDown key =>
    cases key with
    | reset =>
      have hreset := hP.followed.reset (h := {}) hs
      exact hP.line (hP.followed.loadData (h := {}) hreset _ _) _ rfl
    | faster => exact hP.line hs _ rfl
    | slower => exact hP.line hs _ rfl
    | _ => exact hs
  | keyUp key => cases key <;> exact hs
  | _ => exact hs

theorem heeded_handleAll (hP : Journal.Heeded P) (stage : Stage) (hs : P s.supervisor.journal)
    (events : List Event) : P (s.handleAll stage events).supervisor.journal :=
  Session.handleAll_kept (P := fun s => P s.supervisor.journal)
    (fun _ e h => heeded_handle hP stage h e) hs events

theorem heeded_runFrame (hP : Journal.Heeded P) (hs : P s.supervisor.journal) :
    P s.runFrame.1.supervisor.journal := by
  unfold Session.runFrame
  split
  · exact hs
  split
  · exact hs
  · rename_i cycles _
    have hrun := hP.followed.runFrame (h := {}) hs cycles
    cases hr : s.supervisor.runFrame cycles with
    | mk supervisor result =>
      rw [hr] at hrun
      cases result with
      | ok ran => exact hrun
      | error e =>
        simp only
        split
        · exact hP.line hrun _ rfl
        · exact hrun

theorem heeded_take (hP : Journal.Heeded P) (hs : P s.supervisor.journal) (events : List Event) :
    P (s.take stage events).left.supervisor.journal := by
  have hframe := heeded_runFrame hP (heeded_handleAll hP stage hs events)
  rcases s.supervisor_take stage events with ht | ht <;> rw [ht]
  · exact hframe
  · exact hP.followed.consumeRedraw (h := {}) hframe

theorem heeded_course (hP : Journal.Heeded P) (hs : P s.supervisor.journal)
    {script : List (List Event)} {t : Turn} (ht : t ∈ s.course stage script) :
    P t.left.supervisor.journal :=
  left_kept (P := fun s => P s.supervisor.journal) (fun _ events h => heeded_take hP h events) hs ht

end Heeded

/-! ## One turn -/

/-- What holds of a session between two turns, with the turns behind it: the tone has been started and
stopped in turn and goes with the sound timer. -/
structure Steady (pace : Int) (s : Session) (past : List Turn) : Prop where
  inPace : s.InPace pace
  tones : Alternating (tones past) s.playing
  sounding : s.playing = s.supervisor.machine.sounding

theorem Steady.take {pace : Int} {past : List Turn} (h : Steady pace s past) {k : Nat}
    (hk : Argument.scale stage.scale = .ok k) (events : List Event) :
    Steady pace (s.take stage events).left (past ++ [s.take stage events]) := by
  have ht := complete_take hk h.inPace events
  have hpace := h.inPace.handleAll stage events
  have hplaying : (s.take stage events).heard.playing = s.playing :=
    s.playing_handleAll stage events
  obtain ⟨s₁, hf, hleft⟩ := ht.left
  obtain ⟨supervisor, paused, hs₁⟩ := hf.only
  constructor
  · rw [hleft, hs₁]
    exact hpace
  · rw [tones_append, tones_singleton, ht.tone]
    split
    · rename_i hsame
      rw [hsame, hplaying, List.append_nil]
      exact h.tones
    · rename_i hother
      rw [hplaying] at hother
      exact h.tones.concat hother
  · rw [hleft]
    exact s₁.playing_settled

/-- A turn in which all goes as it should, behind the turns of `past`. -/
structure Orderly (pace : Int) (past : List Turn) (t : Turn) : Prop where
  complete : t.Complete
  heard : t.heard.InPace pace
  running : t.left.running = !stopping t.events
  steady : Steady pace t.left (past ++ [t])

theorem Steady.orderly {pace : Int} {past : List Turn} (h : Steady pace s past)
    (hr : s.running = true) {k : Nat} (hk : Argument.scale stage.scale = .ok k)
    (events : List Event) : Orderly pace past (s.take stage events) where
  complete := complete_take hk h.inPace events
  heard := h.inPace.handleAll stage events
  running := by
    obtain ⟨s₁, hf, hleft⟩ := (complete_take hk h.inPace events).left
    obtain ⟨supervisor, paused, rfl⟩ := hf.only
    rw [hleft]
    show (s.handleAll stage events).running = !stopping events
    rw [Session.running_handleAll, hr, Bool.true_and]
  steady := h.take hk events

/-! ## Courses -/

theorem steady_opened {c : Config} {pace : Int} {o : Opening} (h : Opened c pace o)
    (hpace : 1 ≤ pace) : Steady pace o.session [] := by
  obtain ⟨supervisor, hs⟩ := h.session
  obtain ⟨key, hm⟩ := h.machine
  constructor
  · rw [hs]
    show 1 ≤ pace ∧ pace ≤ max 100 pace
    omega
  · rw [hs]
    exact alternating_nil
  · rw [hm, Machine.loaded, hs]
    rfl

section

variable {c : Config} {pace : Int} {o : Opening} {script : List (List Event)}
  (h : Opened c pace o) (hpace : 1 ≤ pace)

include h hpace

/-- A running session that is steady before a turn takes it in order, so by induction each turn of a
course is. -/
theorem orderly_course {earlier later : List Turn} {t : Turn}
    (hc : o.session.course o.stage script = earlier ++ t :: later) : Orderly pace earlier t := by
  obtain ⟨k, hk⟩ := h.scale
  obtain ⟨s, hr, hs, ht⟩ := course_kept (fun _ _ events _ hs => hs.take hk events)
    (running_of_opening h.opening) (steady_opened h hpace) hc
  rw [ht]
  exact hs.orderly hr hk t.events

theorem orderly_of_mem {t : Turn} (ht : t ∈ o.session.course o.stage script) :
    ∃ earlier, Orderly pace earlier t := by
  obtain ⟨earlier, later, hc⟩ := List.append_of_mem ht
  exact ⟨earlier, orderly_course h hpace hc⟩

theorem alternating_course :
    ((false :: tones (o.session.course o.stage script)).IsChain (· ≠ ·)) := by
  rcases List.eq_nil_or_concat (o.session.course o.stage script) with hc | ⟨turns, t, hc⟩
  · rw [hc]
    exact .singleton _
  · rw [List.concat_eq_append] at hc
    rw [hc]
    exact (orderly_course h hpace hc).steady.tones.chain

end

/-- The turns of a session on a script.

* They are those of the loop, and no error leaves it.
* They are the turns of the script up to the first that ends the session. The session runs on behind
  each of them but that one.
* Each comes to its end. Its frame is at a pace of at least one and at most one hundred, or what the
  pace was at first, and nothing is closed or summed up in it.
* The tone is started and stopped in turn. Behind each turn, the last of its starts and stops was a start
  exactly if the sound timer runs. -/
structure Safe (o : Opening) (pace : Int) (script : List (List Event)) (turns : List Turn) : Prop where
  loop : o.session.loop o.stage script = (leftBy o.session turns, turns.map Turn.calls, none)
  events : turns.map Turn.events = taken script
  running : ∀ t ∈ turns, t.left.running = !stopping t.events
  complete : ∀ t ∈ turns, t.Complete
  inPace : ∀ t ∈ turns, t.heard.InPace pace ∧ t.left.InPace pace
  unsummed : ∀ t ∈ turns, t.left.supervisor.journal.Unsummed
  tones : (false :: tones turns).IsChain (· ≠ ·)
  sounding : ∀ earlier t later, turns = earlier ++ t :: later →
    (Host.tones (earlier ++ [t])).getLast?.getD false = decide (0 < t.left.supervisor.machine.sound)

theorem safe_of_opened {c : Config} {pace : Int} {o : Opening} (h : Opened c pace o)
    (hpace : 1 ≤ pace) (script : List (List Event)) :
    Safe o pace script (o.session.course o.stage script) where
  loop := by
    rw [loop_eq]
    cases hl : (o.session.course o.stage script).getLast? with
    | none => rfl
    | some t =>
      obtain ⟨earlier, ht⟩ := orderly_of_mem h hpace (List.mem_of_getLast? hl)
      rw [Option.bind_some, ht.complete.error]
  events := by
    refine events_course fun t hm => ?_
    obtain ⟨earlier, ht⟩ := orderly_of_mem h hpace hm
    exact ⟨ht.complete.error, ht.running⟩
  running t hm := by
    obtain ⟨earlier, ht⟩ := orderly_of_mem h hpace hm
    exact ht.running
  complete t hm := by
    obtain ⟨earlier, ht⟩ := orderly_of_mem h hpace hm
    exact ht.complete
  inPace t hm := by
    obtain ⟨earlier, ht⟩ := orderly_of_mem h hpace hm
    exact ⟨ht.heard, ht.steady.inPace⟩
  unsummed t hm := by
    refine heeded_course Journal.heeded_unsummed ?_ hm
    exact heeded_of_opening Journal.heeded_unsummed h.opening fun _ _ e he =>
      absurd he List.not_mem_nil
  tones := alternating_course h hpace
  sounding earlier t later hc := by
    have hs := (orderly_course h hpace hc).steady
    rw [hs.tones.getLast?, hs.sounding]
    rfl

/-- The threshold of a session is the configured one throughout. -/
theorem threshold_course {c : Config} {o : Opening} (ho : c.opening = .ok o) {level : Level}
    (hl : Argument.level c.logLevel = .ok level) {script : List (List Event)} {t : Turn}
    (ht : t ∈ o.session.course o.stage script) :
    t.left.supervisor.journal.logger.threshold = level := by
  refine heeded_course (Journal.heeded_threshold level) ?_ ht
  refine heeded_of_opening (Journal.heeded_threshold level) ho fun level' hl' => ?_
  rw [hl] at hl'
  exact (Except.ok.inj hl').symm

/-- A run on settings that make sense is opened, and its program can be loaded after any reset. Its
session is safe on every script. On a script that ends it, the run is these turns, and behind the last
of them one closing of the window and one summary: a record of the last supervisor, which is the only
summary in the log, and is there unless the configured level keeps out records of its level. -/
theorem course_safe {c : Config} {pace : Int} (h : c.Valid pace) :
    ∃ o level, c.opening = .ok o ∧ Argument.level c.logLevel = .ok level ∧ Call.quit ∉ o.setup ∧
      (∀ s : Supervisor, (s.reset.load (.bytes o.stage.program) (some o.stage.rom)).2 = .ok ()) ∧
      ∀ script, Safe o pace script (c.course script) ∧
        ∀ earlier t, c.course script = earlier ++ [t] → stopping t.events = true → ∃ last,
          c.run script =
            { setup := o.setup
              turns := earlier.map Turn.calls ++ [t.calls ++ [.quit]]
              machine := some (o.first, last) } ∧
          t.left.supervisor.SumsUp last c.elapsed ∧
          (last.journal.logger.entries.toList.countP fun e => e.record.notice.isSummary) =
            if level = .debug ∨ level = .info then 1 else 0 := by
  obtain ⟨o, ho⟩ := opened_of_valid h
  obtain ⟨level, hlevel⟩ := h.level
  refine ⟨o, level, ho.opening, hlevel, ho.unclosed, ?_, ?_⟩
  · intro s
    exact (s.reset.load_bytes ho.fits _).2
  · intro script
    rw [course_of_opening ho.opening]
    have hsafe := safe_of_opened ho h.pace.2 script
    refine ⟨hsafe, ?_⟩
    intro earlier t hc _
    have hmem : t ∈ o.session.course o.stage script := by
      rw [hc]
      exact List.mem_append_right _ List.mem_cons_self
    have hloop := hsafe.loop
    rw [hc, leftBy_concat, List.map_append] at hloop
    have hsums := t.left.supervisor.sumsUp_noteSummary c.elapsed
    refine ⟨_, ?_, hsums, ?_⟩
    · rw [run_of_opening ho.opening hloop, List.map_singleton, closeLast_concat]
    · rw [hsums.once (hsafe.unsummed t hmem), threshold_course ho.opening hlevel hmem]

/-- A first turn that does not end the session is followed by a second. -/
theorem course_pair {c : Config} {pace : Int} {o : Opening} (h : Opened c pace o) (hpace : 1 ≤ pace)
    {first : List Event} (hgoes : stopping first = false) (second : List Event) :
    c.course [first, second] = [o.session.take o.stage first,
      (o.session.take o.stage first).left.take o.stage second] := by
  obtain ⟨k, hk⟩ := h.scale
  have ht := (steady_opened h hpace).orderly (running_of_opening h.opening) hk first
  have hleft : (o.session.take o.stage first).left.running = true := by
    rw [ht.running]
    show (!stopping first) = true
    rw [hgoes]
    rfl
  rw [course_of_opening h.opening, course_cons, ht.complete.error, hleft, course_cons]
  simp only [Session.course, Option.isNone_none, Bool.and_self, ↓reduceIte, ite_self]

theorem level_spot : Argument.level spot.logLevel = .ok .info := by
  show Argument.level (.text Level.info.name) = .ok .info
  rw [Argument.level, Level.ofText?_name]

theorem valid_spot : spot.Valid 1 where
  program := ⟨[0xD0, 0x01], rfl, by decide⟩
  seed := ⟨0, .ofSeed 0, rfl, rfl⟩
  level := ⟨.info, level_spot⟩
  scheme := ⟨.classic, rfl⟩
  tone := by
    obtain ⟨frequency, hf, hp⟩ := Supervisor.ok_of_bind prepare_spot
    obtain ⟨tone, ht, -⟩ := Supervisor.ok_of_bind hp
    exact ⟨frequency, tone, hf, ht⟩
  scale := ⟨1, rfl, by decide⟩
  pace := ⟨rfl, by decide⟩

/-- A turn that comes after the one that ends the session is not taken, and one summary is written. -/
theorem course_safe_spot : spot.Valid 1 ∧ ∃ (o : Opening) (t₁ t₂ : Turn) (last : Supervisor),
    spot.opening = .ok o ∧ (∀ script, Safe o 1 script (spot.course script)) ∧
      spot.course [[.keyDown .faster], [.quit], [.keyDown .pause]] = [t₁, t₂] ∧
      t₁.events = [.keyDown .faster] ∧ t₂.events = [.quit] ∧
      (spot.run [[.keyDown .faster], [.quit], [.keyDown .pause]]).machine = some (o.first, last) ∧
      t₂.left.supervisor.SumsUp last spot.elapsed ∧
      (last.journal.logger.entries.toList.countP fun e => e.record.notice.isSummary) = 1 := by
  obtain ⟨o, level, ho, hlevel, -, -, hsafe⟩ := course_safe valid_spot
  obtain ⟨hs, hends⟩ := hsafe [[.keyDown .faster], [.quit], [.keyDown .pause]]
  have hevents : (spot.course [[.keyDown .faster], [.quit], [.keyDown .pause]]).map Turn.events =
      [[.keyDown .faster], [.quit]] := hs.events
  obtain ⟨t₁, rest, hc, h₁, hrest⟩ := List.map_eq_cons_iff.1 hevents
  obtain ⟨t₂, later, rfl, h₂, hnone⟩ := List.map_eq_cons_iff.1 hrest
  obtain rfl := List.map_eq_nil_iff.1 hnone
  obtain ⟨last, hrun, hsums, honce⟩ := hends [t₁] t₂ hc (by rw [h₂]; rfl)
  obtain rfl := Except.ok.inj (level_spot.symm.trans hlevel)
  exact ⟨valid_spot, o, t₁, t₂, last, ho, fun script => (hsafe script).1, hc, h₁, h₂, by rw [hrun],
    hsums, honce⟩

end Host

end Chip8
