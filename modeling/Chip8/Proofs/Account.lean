import Chip8.Host.Account
import Chip8.Proofs.Records
import Chip8.Proofs.Safety
import Chip8.Proofs.Strictness
import Mathlib.Data.List.Induction

/-! The summary of a session against the session. The supervisor counts its cycles from the last reset on
and its faults from the beginning, and what is written at the end of a session is this count with the
tally of the faults.

* `followed_accounted`: the count and the tally against the history of a supervisor, by the induction over
  all that can be done with it;
* `accounted_take`, `accounted_course`: the same through the turns of a session;
* `summary_counts_iff`: the summary counts the cycles of the session unless a reset came behind one;
* `summary_undercounts`: a session with one cycle in the summary, and two faults. -/

namespace Chip8

theorem Tally.total_add (t : Tally) (kind : String) : (t.add kind).total = t.total + 1 := by
  induction t with
  | nil => rfl
  | cons e rest ih =>
    obtain ⟨k, n⟩ := e
    by_cases h : k = kind
    · simp only [add, h, ↓reduceIte, total, List.map_cons, List.foldr_cons]
      omega
    · have hrest : ((Tally.add rest kind).map Prod.snd).foldr (· + ·) 0 =
          (rest.map Prod.snd).foldr (· + ·) 0 + 1 := ih
      simp only [add, h, ↓reduceIte, total, List.map_cons, List.foldr_cons, hrest]
      omega

/-- The faults of a number of deeds by kind, each kind where it occurred first. -/
def Tally.ofDeeds (ds : List Deed) : Tally :=
  (ds.filterMap Deed.fault?).foldl (fun t f => t.add f.name) []

theorem Tally.ofDeeds_concat (ds : List Deed) (d : Deed) : ofDeeds (ds ++ [d]) =
    match d.fault? with
    | some f => (ofDeeds ds).add f.name
    | none => ofDeeds ds := by
  rw [ofDeeds, List.filterMap_append, List.foldl_append, ← ofDeeds]
  cases hf : d.fault? with
  | none =>
    rw [List.filterMap_cons_none hf]
    rfl
  | some f =>
    rw [List.filterMap_cons_some hf]
    rfl

theorem Tally.total_ofDeeds (ds : List Deed) :
    (ofDeeds ds).total = ds.countP fun d => d.fault?.isSome := by
  induction ds using List.reverseRecOn with
  | nil => rfl
  | append_singleton ds d ih =>
    rw [ofDeeds_concat, List.countP_append, List.countP_singleton, ← ih]
    cases d.fault? with
    | none => rfl
    | some f => exact total_add _ _

namespace History

theorem addAll_eq (h : History) (ds : List Deed) :
    h.addAll ds = { h with recent := h.recent ++ ds } := by
  induction ds generalizing h with
  | nil => rw [List.append_nil]; rfl
  | cons d rest ih =>
    show (h.add d).addAll rest = _
    rw [ih, add, List.append_assoc, List.singleton_append]

theorem all_addAll (h : History) (ds : List Deed) : (h.addAll ds).all = h.all ++ ds := by
  rw [addAll_eq, all, all, List.append_assoc]

theorem reset_reset (h : History) : h.reset.reset = h.reset := by
  rw [reset, all_reset]
  rfl

end History

/-- Only what is executed can fault, and only a machine that is not halted executes anything. -/
theorem Deed.isLive_of_fault {d : Deed} (h : d.fault?.isSome = true) : d.isLive = true := by
  cases d with
  | cycle m =>
    obtain ⟨f, hf⟩ := Option.isSome_iff_exists.1 h
    have hr := ((m.cycleFault?_eq_some_iff f).1 hf).running
    rw [isLive, hr]
    rfl
  | halt m | resume m => cases h

namespace Supervisor

variable {s s' : Supervisor} {h : History}

/-- The cycles since the last reset are counted, and all faults. -/
structure Accounted (s : Supervisor) (h : History) : Prop where
  cycles : s.cycles = h.recent.countP Deed.isLive
  faults : s.journal.faults = .ofDeeds h.all

theorem faults_cycled (s : Supervisor) : s.cycled.journal.faults = s.journal.faults := by
  unfold cycled noteChange
  split
  · rfl
  · split <;> rfl

theorem faults_step (s : Supervisor) : s.step.1.journal.faults =
    match s.machine.cycleFault? with
    | some f => s.journal.faults.add f.name
    | none => s.journal.faults := by
  by_cases hh : s.machine.mode = .halted
  · have hf : s.machine.cycleFault? = none := by
      rw [Machine.cycleFault?, hh]
      rfl
    rw [step_of_halted hh, hf]
  · rw [step_eq hh]
    cases s.machine.cycleFault? with
    | none => exact s.faults_cycled
    | some f =>
      simp only [journal_report]
      exact congrArg (·.add f.name) s.faults_cycled

theorem Accounted.deed (hs : s.Accounted h) {d : Deed}
    (hc : s'.cycles = s.cycles + if d.isLive then 1 else 0)
    (hf : s'.journal.faults = match d.fault? with
      | some f => s.journal.faults.add f.name
      | none => s.journal.faults) : s'.Accounted (h.add d) where
  cycles := by
    rw [hc, hs.cycles, History.add, List.countP_append, List.countP_singleton]
  faults := by rw [hf, History.all_add, Tally.ofDeeds_concat, ← hs.faults]

theorem followed_accounted : Followed Accounted where
  cycle {s _} hs := hs.deed s.cycles_step_eq s.faults_step
  halt {s _} hs := by
    rcases s.halt_eq with ⟨-, old, -, he⟩ | ⟨-, he⟩ <;> rw [he] <;> exact hs.deed rfl rfl
  resume {s _} hs := by
    by_cases hm : s.machine.mode = .halted
    · rw [resume_of_halted hm]
      exact hs.deed rfl rfl
    · rw [resume_of_not_halted hm]
      exact hs.deed rfl rfl
  load hs _ _ _ := ⟨hs.cycles, hs.faults⟩
  host hs _ _ _ _ := ⟨hs.cycles, hs.faults⟩
  ran hs _ _ := ⟨hs.cycles, hs.faults⟩
  reset {_ h} hs := ⟨rfl, by rw [h.all_reset]; exact hs.faults⟩

end Supervisor

namespace Host

variable {stage : Stage} {s : Session} {h : History}

/-! ## One turn -/

open Supervisor (followed_accounted)

theorem accounted_handle (stage : Stage) (hs : s.supervisor.Accounted h) (e : Event) :
    (s.handle stage e).supervisor.Accounted (if e = .keyDown .reset then h.reset else h) := by
  cases e with
  | keyDown key =>
    cases key with
    | reset =>
      obtain ⟨hcycles, hfaults⟩ := followed_accounted.loadData (followed_accounted.reset hs)
        (.bytes stage.program) (some stage.rom)
      exact ⟨hcycles, hfaults⟩
    | _ => exact ⟨hs.cycles, hs.faults⟩
  | keyUp key => cases key <;> exact ⟨hs.cycles, hs.faults⟩
  | _ => exact ⟨hs.cycles, hs.faults⟩

theorem accounted_handleAll (stage : Stage) (hs : s.supervisor.Accounted h) (events : List Event) :
    (s.handleAll stage events).supervisor.Accounted
      (if .keyDown .reset ∈ events then h.reset else h) := by
  induction events generalizing s h with
  | nil => exact hs
  | cons e rest ih =>
    have hrest := ih (accounted_handle stage hs e)
    by_cases he : e = .keyDown .reset
    · rw [if_pos he, h.reset_reset, ite_self] at hrest
      rw [if_pos (he ▸ List.mem_cons_self)]
      exact hrest
    · rw [if_neg he] at hrest
      simp only [List.mem_cons, Ne.symm he, false_or]
      exact hrest

theorem accounted_runFrame (hs : s.supervisor.Accounted h) :
    s.runFrame.1.supervisor.Accounted (h.addAll s.deeds) := by
  unfold Session.runFrame Session.deeds
  cases s.paused with
  | true => exact hs
  | false =>
    by_cases hp : s.pace ≤ 0
    · have hrefused : Argument.frameLength (.integer s.pace) =
          .error (.frameLengthRefused (.integer s.pace)) := by
        simp only [Argument.frameLength, Value.toInt?, if_pos hp]
      rw [hrefused, Int.toNat_of_nonpos hp]
      exact hs
    · have hframe := followed_accounted.runFrame hs s.pace.toNat
      rw [Session.frameLength_of_pos hp]
      simp only [Bool.false_eq_true, ↓reduceIte]
      cases hrun : s.supervisor.runFrame s.pace.toNat with
      | mk supervisor result =>
        rw [hrun] at hframe
        cases result with
        | ok ran => exact hframe
        | error e =>
          simp only
          split
          · exact ⟨hframe.cycles, hframe.faults⟩
          · exact hframe

theorem accounted_take (hs : s.supervisor.Accounted h) (events : List Event) :
    (s.take stage events).left.supervisor.Accounted ((s.take stage events).remember h) := by
  have hframe := accounted_runFrame (accounted_handleAll stage hs events)
  rcases s.supervisor_take stage events with ht | ht <;> rw [ht]
  · exact hframe
  · exact followed_accounted.consumeRedraw hframe

/-! ## Courses -/

theorem history_concat (turns : List Turn) (t : Turn) :
    history (turns ++ [t]) = t.remember (history turns) := by
  rw [history, List.foldl_append]
  rfl

theorem all_history (turns : List Turn) : (history turns).all = turns.flatMap Turn.deeds := by
  induction turns using List.reverseRecOn with
  | nil => rfl
  | append_singleton turns t ih =>
    have hreset : (if .keyDown .reset ∈ t.events then (history turns).reset else history turns).all =
        (history turns).all := by
      split
      · exact History.all_reset _
      · rfl
    rw [history_concat, Turn.remember, History.all_addAll, hreset, ih, List.flatMap_append,
      List.flatMap_singleton]

theorem past_history_concat (turns : List Turn) (t : Turn) : (history (turns ++ [t])).past =
    if .keyDown .reset ∈ t.events then turns.flatMap Turn.deeds else (history turns).past := by
  rw [history_concat, Turn.remember, History.addAll_eq]
  split
  · exact all_history turns
  · rfl

theorem cyclesIn_append (turns turns' : List Turn) :
    cyclesIn (turns ++ turns') = cyclesIn turns + cyclesIn turns' := by
  rw [cyclesIn, List.flatMap_append, List.countP_append, cyclesIn, cyclesIn]

/-- What is past does not count exactly where no reset came behind a cycle. -/
theorem past_idle_iff (turns : List Turn) : (history turns).past.countP Deed.isLive = 0 ↔
    ∀ earlier t later, turns = earlier ++ t :: later → .keyDown .reset ∈ t.events →
      cyclesIn earlier = 0 := by
  induction turns using List.reverseRecOn with
  | nil => exact ⟨fun _ _ _ _ hs => absurd hs (by simp), fun _ => rfl⟩
  | append_singleton turns t ih =>
    rw [past_history_concat]
    constructor
    · -- the reset is in the last turn, or in one before it
      intro hidle earlier t' later hs hr
      rcases List.eq_nil_or_concat later with rfl | ⟨later, last, rfl⟩
      · obtain ⟨rfl, hlast⟩ := List.append_inj' hs rfl
        obtain rfl := List.singleton_inj.1 hlast
        rwa [if_pos hr] at hidle
      · have hs' : turns ++ [t] = (earlier ++ t' :: later) ++ [last] := by
          rw [hs, List.concat_eq_append, List.append_assoc, List.cons_append]
        obtain ⟨hturns, -⟩ := List.append_inj' hs' rfl
        split at hidle
        · have hall : cyclesIn turns = 0 := hidle
          rw [hturns, cyclesIn_append] at hall
          omega
        · exact ih.1 hidle earlier t' later hturns hr
    · intro hearlier
      split
      · exact hearlier turns t [] rfl ‹_›
      · refine ih.2 fun earlier t' later hs hr => hearlier earlier t' (later ++ [t]) ?_ hr
        rw [hs, List.append_assoc, List.cons_append]

theorem accounted_course (stage : Stage) (hs : s.supervisor.Accounted {}) (hr : s.running = true)
    (script : List (List Event)) :
    (leftBy s (s.course stage script)).supervisor.Accounted (history (s.course stage script)) := by
  rcases List.eq_nil_or_concat (s.course stage script) with hc | ⟨turns, t, hc⟩
  · rw [hc]
    exact hs
  · rw [List.concat_eq_append] at hc
    have hnone : s.supervisor.Accounted (history []) := hs
    obtain ⟨s', -, hs', ht⟩ := course_kept
      (P := fun s past => s.supervisor.Accounted (history past))
      (fun _ _ events _ hs => by rw [history_concat]; exact accounted_take hs events) hr hnone hc
    rw [hc, leftBy_concat, history_concat, ht]
    exact accounted_take hs' t.events

/-- A session begins with nothing counted. -/
theorem accounted_of_opening {c : Config} {o : Opening} (ho : c.opening = .ok o) :
    o.session.supervisor.Accounted {} := by
  refine followed_of_opening followed_accounted ho ?_ fun s hs => ⟨hs.cycles, hs.faults⟩
  intro level s _ hs
  obtain ⟨j, key, ⟨⟩, rfl⟩ := Supervisor.create_eq hs
  exact ⟨rfl, rfl⟩

/-! ## Summaries -/

/-- How many cycles of a number of turns ended with a fault. -/
def faultsIn (turns : List Turn) : Nat :=
  (turns.flatMap Turn.deeds).countP fun d => d.fault?.isSome

theorem faultsIn_le_cyclesIn (turns : List Turn) : faultsIn turns ≤ cyclesIn turns :=
  List.countP_mono_left fun _ _ => Deed.isLive_of_fault

/-- What the supervisor that a summary is made of has counted, against the turns of the session.

* The cycles are those since the last reset. They are all the cycles of the session exactly if none of
  them came before a reset.
* The faults are all faults of the session by kind, of which there are no more than cycles of the
  session. -/
structure Summed (turns : List Turn) (last : Supervisor) : Prop where
  recent : last.cycles = (history turns).recent.countP Deed.isLive
  cycles : last.cycles = cyclesIn turns ↔
    ∀ earlier t later, turns = earlier ++ t :: later → .keyDown .reset ∈ t.events →
      cyclesIn earlier = 0
  tally : last.journal.faults = .ofDeeds (turns.flatMap Turn.deeds)
  faults : last.journal.faults.total = faultsIn turns
  bound : faultsIn turns ≤ cyclesIn turns

theorem summed_of_accounted {turns : List Turn} {last : Supervisor}
    (h : last.Accounted (history turns)) : Summed turns last where
  recent := h.cycles
  cycles := by
    have hall : cyclesIn turns =
        (history turns).past.countP Deed.isLive + (history turns).recent.countP Deed.isLive := by
      rw [cyclesIn, ← all_history, History.all, List.countP_append]
    rw [← past_idle_iff, h.cycles, hall]
    omega
  tally := by rw [h.faults, all_history]
  faults := by rw [h.faults, all_history, Tally.total_ofDeeds, faultsIn]
  bound := faultsIn_le_cyclesIn turns

/-- A run that is opened and goes without an error ends with the summary of its last supervisor. -/
theorem run_of_error_none {c : Config} {o : Opening} (ho : c.opening = .ok o)
    {script : List (List Event)} (he : (c.run script).error = none) : (c.run script).machine =
      some (o.first,
        (leftBy o.session (c.course script)).supervisor.noteSummary c.elapsed) := by
  obtain ⟨s, turns, hl⟩ := loop_of_run ho he
  rw [run_of_opening ho hl, course_of_opening ho]
  rw [loop_eq] at hl
  rw [(Prod.mk.inj hl).1]

/-- The summary of a run is made of the supervisor that the last turn left: a record of its count of the
cycles and its tally of the faults. These are the cycles since the last reset and the faults of the whole
session, whatever came in. -/
theorem summary_counts_iff {c : Config} {o : Opening} (ho : c.opening = .ok o)
    {script : List (List Event)} (he : (c.run script).error = none) :
    (c.run script).machine = some (o.first,
        (leftBy o.session (c.course script)).supervisor.noteSummary c.elapsed) ∧
      (leftBy o.session (c.course script)).supervisor.SumsUp
        ((leftBy o.session (c.course script)).supervisor.noteSummary c.elapsed) c.elapsed ∧
      Summed (c.course script) (leftBy o.session (c.course script)).supervisor := by
  have hstart := accounted_of_opening ho
  have hr := running_of_opening ho
  refine ⟨run_of_error_none ho he, Supervisor.sumsUp_noteSummary _ _, ?_⟩
  rw [course_of_opening ho]
  exact summed_of_accounted (accounted_course o.stage hstart hr script)

/-! ## A session with a reset -/

/-- Two zeros, which are no instruction, at one cycle a frame. -/
def zeros : Config := { spot with rom := "zeros.ch8", content := some [0, 0] }

theorem valid_zeros : zeros.Valid 1 where
  program := ⟨[0, 0], rfl, by decide⟩
  seed := valid_spot.seed
  level := valid_spot.level
  scheme := valid_spot.scheme
  tone := valid_spot.tone
  scale := valid_spot.scale
  pace := valid_spot.pace

/-- One turn, then a reset, and the session is closed. -/
def restarted : List (List Event) := [[], [.keyDown .reset, .quit]]

/-- A frame of one cycle on the two zeros is one fault. -/
theorem deeds_zeros {key : Random.Key} (hp : s.paused = false) (hn : s.pace = 1)
    (hm : s.supervisor.machine = (Machine.initial key).loaded [0, 0]) :
    ∃ d : Deed, s.deeds = [d] ∧ d.fault? = some .unknownOpcode := by
  have hmode : s.supervisor.machine.mode = .running := by
    rw [hm, Machine.mode_loaded]
    rfl
  have hfault : s.supervisor.machine.cycleFault? = some .unknownOpcode := by
    have hfetch : s.supervisor.machine.fetch = 0 := by
      rw [hm]
      exact Machine.fetch_loaded _ (by decide)
    rw [Machine.cycleFault?_eq_some_iff, Machine.Faults, Machine.current?, hfetch]
    exact ⟨hmode, rfl⟩
  refine ⟨.cycle s.supervisor.machine, ?_, hfault⟩
  rw [Session.deeds, hp, hn]
  show s.supervisor.loopDeeds 1 = _
  have hlive : s.supervisor.isHalted = false := by
    rw [Supervisor.isHalted, hmode]
    rfl
  rw [Supervisor.loopDeeds_succ, hlive]
  cases s.supervisor.step with
  | mk s' result => cases result <;> rfl

/-- The frame on the two zeros does not pause the session, since they are no error where nothing is
strict. -/
theorem unpaused_zeros {key : Random.Key} {s' : Session} (hf : s.Framed s')
    (hp : s.paused = false) (hn : s.pace = 1) (hstrict : s.supervisor.strict = false)
    (hm : s.supervisor.machine = (Machine.initial key).loaded [0, 0]) :
    s'.paused = false ∧ s'.pace = 1 := by
  have hfetch : s.supervisor.machine.fetch = 0 := by
    rw [hm]
    exact Machine.fetch_loaded _ (by decide)
  cases hf with
  | paused hpaused => exact ⟨hp, hn⟩
  | ran => exact ⟨hp, hn⟩
  | @failed n supervisor f pc word _ hcycles hr =>
    obtain ⟨ran, hok⟩ := Supervisor.runFrame_one_ok hstrict (by rw [hfetch]; decide)
      (by rw [hfetch]; decide)
    obtain rfl : n = 1 := by omega
    rw [hr] at hok
    cases hok

theorem program_of_opening {c : Config} {o : Opening} (ho : c.opening = .ok o) {program : List UInt8}
    (hc : c.content = some program) (hfits : program.length ≤ Machine.maxProgramSize) :
    o.stage.program = program := by
  obtain ⟨j, first, program', scale, scheme, pace, -, -, hload, -, -, -, rfl⟩ := steps_of_opening ho
  rw [load_of_fits hc hfits] at hload
  exact (Except.ok.inj (Prod.mk.inj hload).2).symm

theorem strict_of_opening {c : Config} {o : Opening} (ho : c.opening = .ok o)
    (hc : c.strict = false) : o.session.supervisor.strict = false := by
  refine followed_of_opening Supervisor.followed_lenient ho ?_ fun s hs => hs
  intro level s _ hs
  obtain ⟨j, key, -, rfl⟩ := Supervisor.create_eq hs
  exact hc

theorem machine_restart_of_fits (h : stage.program.length ≤ Machine.maxProgramSize) :
    (s.handle stage (.keyDown .reset)).supervisor.machine =
      (Machine.initial s.supervisor.key).loaded stage.program := by
  have hm := (s.supervisor.reset.load_bytes h (some stage.rom)).1
  rw [Supervisor.machine_reset] at hm
  exact hm

/-- The two turns of the session, with one faulty cycle in each. -/
theorem course_zeros : ∃ (o : Opening) (t₁ t₂ : Turn) (d₁ d₂ : Deed), zeros.opening = .ok o ∧
    (zeros.run restarted).error = none ∧ zeros.course restarted = [t₁, t₂] ∧
      t₂.events = [.keyDown .reset, .quit] ∧ t₁.deeds = [d₁] ∧ t₂.deeds = [d₂] ∧
      d₁.fault? = some .unknownOpcode ∧ d₂.fault? = some .unknownOpcode := by
  obtain ⟨o, ho⟩ := opened_of_valid valid_zeros
  obtain ⟨k, hk⟩ := ho.scale
  obtain ⟨supervisor, hs⟩ := ho.session
  obtain ⟨key, hm⟩ := ho.machine
  have hprogram : o.stage.program = [0, 0] := program_of_opening ho.opening rfl (by decide)
  have hp : o.session.paused = false := by rw [hs]
  have hn : o.session.pace = 1 := by rw [hs]
  have hstrict := strict_of_opening ho.opening rfl
  rw [hprogram] at hm
  obtain ⟨d₁, hd₁, hf₁⟩ := deeds_zeros hp hn hm
  have hsteady := steady_opened ho valid_zeros.pace.2
  obtain ⟨s₁, hframed, hleft⟩ := (complete_take hk hsteady.inPace []).left
  obtain ⟨hp₁, hn₁⟩ := unpaused_zeros hframed hp hn hstrict hm
  let t₁ := o.session.take o.stage []
  have hpaused : (t₁.left.handleAll o.stage [.keyDown .reset, .quit]).paused = false := by
    show t₁.left.paused = false
    rw [hleft]
    exact hp₁
  have hpace : (t₁.left.handleAll o.stage [.keyDown .reset, .quit]).pace = 1 := by
    show t₁.left.pace = 1
    rw [hleft]
    exact hn₁
  have hmachine := machine_restart_of_fits (s := t₁.left) ho.fits
  rw [hprogram] at hmachine
  obtain ⟨d₂, hd₂, hf₂⟩ := deeds_zeros
    (s := t₁.left.handleAll o.stage [.keyDown .reset, .quit]) hpaused hpace hmachine
  refine ⟨o, _, _, d₁, d₂, ho.opening, ?_, course_pair ho valid_zeros.pace.2 rfl _, rfl, hd₁, hd₂, hf₁,
    hf₂⟩
  rw [run_of_opening ho.opening (safe_of_opened ho valid_zeros.pace.2 restarted).loop]

theorem summary_counts_iff_zeros : ∃ o, zeros.opening = .ok o ∧ (zeros.run restarted).error = none ∧
    (zeros.run restarted).machine = some (o.first,
        (leftBy o.session (zeros.course restarted)).supervisor.noteSummary zeros.elapsed) ∧
      (leftBy o.session (zeros.course restarted)).supervisor.SumsUp
        ((leftBy o.session (zeros.course restarted)).supervisor.noteSummary zeros.elapsed)
        zeros.elapsed ∧
      Summed (zeros.course restarted)
        (leftBy o.session (zeros.course restarted)).supervisor := by
  obtain ⟨o, -, -, -, -, ho, he, -⟩ := course_zeros
  exact ⟨o, ho, he, summary_counts_iff ho he⟩

/-- The session ran two cycles and both were faults. Its summary, the last record in the log, counts one
cycle, and two faults. -/
theorem summary_undercounts : ∃ (o : Opening) (last : Supervisor) (now : Float),
    zeros.opening = .ok o ∧ (zeros.run restarted).error = none ∧
      (zeros.run restarted).machine = some (o.first, last.noteSummary zeros.elapsed) ∧
      (last.noteSummary zeros.elapsed).journal.logger.entries.toList.getLast? =
        some ⟨now, "INFO", .summary 1 zeros.elapsed [("UnknownOpcode", 2)]⟩ ∧
      last.cycles = 1 ∧ cyclesIn (zeros.course restarted) = 2 ∧ last.journal.faults.total = 2 := by
  obtain ⟨o, t₁, t₂, d₁, d₂, ho, he, hc, hevents, hd₁, hd₂, hf₁, hf₂⟩ := course_zeros
  have hstart := accounted_of_opening ho
  have hr := running_of_opening ho
  have hcount := accounted_course o.stage hstart hr restarted
  rw [← course_of_opening ho] at hcount
  have hlive₁ : d₁.isLive = true := Deed.isLive_of_fault (by rw [hf₁]; rfl)
  have hlive₂ : d₂.isLive = true := Deed.isLive_of_fault (by rw [hf₂]; rfl)
  have hrecent : (history [t₁, t₂]).recent = [d₂] := by
    rw [show [t₁, t₂] = [t₁] ++ [t₂] from rfl, history_concat, Turn.remember, hevents,
      if_pos List.mem_cons_self, History.addAll_eq, hd₂]
    rfl
  have hall : [t₁, t₂].flatMap Turn.deeds = [d₁, d₂] := by
    simp only [List.flatMap_cons, List.flatMap_nil, hd₁, hd₂]
    rfl
  have hlast : t₂ ∈ o.session.course o.stage restarted := by
    rw [← course_of_opening ho, hc]
    exact List.mem_cons_of_mem _ List.mem_cons_self
  have hthreshold : (leftBy o.session (zeros.course restarted)).supervisor.journal.logger.threshold =
      .info := by
    rw [hc]
    exact threshold_course ho level_spot hlast
  have hcycles : (leftBy o.session (zeros.course restarted)).supervisor.cycles = 1 := by
    rw [hcount.cycles, hc, hrecent]
    simp [hlive₂]
  have hfaults : (leftBy o.session (zeros.course restarted)).supervisor.journal.faults =
      [("UnknownOpcode", 2)] := by
    rw [hcount.faults, hc, all_history, hall, Tally.ofDeeds]
    simp only [List.filterMap_cons, List.filterMap_nil, hf₁, hf₂]
    rfl
  have hsums := Supervisor.sumsUp_noteSummary
    (leftBy o.session (zeros.course restarted)).supervisor zeros.elapsed
  obtain ⟨faults, hperm, hrecord⟩ := hsums.getLast? (.inr hthreshold)
  rw [hfaults, List.perm_singleton] at hperm
  rw [hcycles, hperm] at hrecord
  refine ⟨o, _, _, ho, he, run_of_error_none ho he, hrecord, hcycles, ?_, ?_⟩
  · rw [cyclesIn, hc, hall]
    simp [hlive₁, hlive₂]
  · rw [hfaults]
    rfl

end Host

end Chip8
