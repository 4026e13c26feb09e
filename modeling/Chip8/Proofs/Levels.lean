import Chip8.Log.Use
import Chip8.Proofs.Records
import Chip8.Supervisor.Clock
import Mathlib.Data.List.Basic
import Mathlib.Data.List.Induction

/-! Log levels. A logger keeps of what it is handed the records that reach its threshold, and nothing else
depends on the threshold: a supervisor at any level goes along with one that logs everything, and its
records are the records of the other that reach its level.

* `ofTag_eq_iff`: the level that a tag is weighed at;
* `entries_useAll`: a logger whose threshold changes while it is in use;
* `call_raised`: a call on a supervisor at a higher level;
* `threshold_only_filters`: both of them, over all uses and all calls. -/

namespace Chip8

/-! ## Levels -/

namespace Level

/-- The text names the level, in capitals or not. -/
def Spelled (s : String) (l : Level) : Prop :=
  s.toList.map capital = l.name.toList

/-- The level that a tag counts as. -/
def Weighs (tag : String) (l : Level) : Prop :=
  Spelled tag l ∨ (∀ l', ¬ Spelled tag l') ∧ l = info

theorem name_inj {l l' : Level} (h : l.name.toList = l'.name.toList) : l = l' := by
  cases l <;> cases l' <;> first | rfl | exact absurd h (by decide +kernel)

theorem mem_all (l : Level) : l ∈ all := by
  cases l <;> decide

theorem ofText?_eq_some_iff (s : String) (l : Level) : ofText? s = some l ↔ Spelled s l := by
  have hfound : ∀ l', ofText? s = some l' → l'.name.toList = s.toList.map capital := by
    intro l' h
    rw [ofText?] at h
    simpa using List.find?_some h
  constructor
  · intro h
    exact (hfound l h).symm
  · intro h
    cases hf : ofText? s with
    | none =>
      rw [ofText?, List.find?_eq_none] at hf
      exact absurd (decide_eq_true h.symm) (hf l l.mem_all)
    | some l' => rw [name_inj ((hfound l' hf).trans h)]

theorem ofText?_eq_none_iff (s : String) : ofText? s = none ↔ ∀ l, ¬ Spelled s l := by
  rw [Option.eq_none_iff_forall_ne_some]
  exact forall_congr' fun l => not_congr (ofText?_eq_some_iff s l)

theorem ofTag_eq_iff (tag : String) (l : Level) : ofTag tag = l ↔ Weighs tag l := by
  rw [ofTag, Weighs, ← ofText?_eq_some_iff, ← ofText?_eq_none_iff]
  cases ofText? tag with
  | none => simp [eq_comm]
  | some l' => simp

end Level

/-! ## Loggers in use -/

namespace Logger

theorem threshold_use (l : Logger) (u : Use) :
    (l.use u).1.threshold = u.level?.getD l.threshold := by
  cases u with
  | log tag notice => exact Journal.threshold_log l tag notice
  | wait now => rfl
  | setLevel v =>
    cases v with
    | text s =>
      rw [use, Argument.level, Use.level?]
      cases Level.ofText? s <;> rfl
    | _ => rfl

theorem now_use (l : Logger) (u : Use) : (l.use u).1.now = u.time?.getD l.now := by
  cases u with
  | log tag notice =>
    rw [use, log]
    split <;> rfl
  | wait now => rfl
  | setLevel v =>
    rw [use]
    split <;> rfl

/-- What a use adds to the entries. -/
def added (l : Logger) : Use → Option Entry
  | .log tag notice =>
    if l.threshold.rank ≤ (Level.ofTag tag).rank then some ⟨l.now, ⟨tag, notice⟩⟩ else none
  | _ => none

theorem entries_use (l : Logger) (u : Use) :
    (l.use u).1.entries.toList = l.entries.toList ++ (l.added u).toList := by
  cases u with
  | log tag notice =>
    rw [use, log, enabled, added]
    by_cases h : l.threshold.rank ≤ (Level.ofTag tag).rank <;> simp [h]
  | wait now => exact (List.append_nil _).symm
  | setLevel v =>
    rw [use]
    split <;> exact (List.append_nil _).symm

/-- A use that fails changes nothing. -/
theorem use_of_error (l : Logger) {u : Use} {e : Error} (h : (l.use u).2 = .error e) :
    (l.use u).1 = l := by
  cases u with
  | setLevel v =>
    rw [use] at h ⊢
    cases hv : Argument.level v with
    | ok threshold =>
      rw [hv] at h
      cases h
    | error e => rfl
  | _ => cases h

/-! ### Many uses -/

theorem useAll_concat (l : Logger) (us : List Use) (u : Use) :
    l.useAll (us ++ [u]) = ((l.useAll us).use u).1 := by
  rw [useAll, List.foldl_append]
  rfl

theorem getLast?_filterMap_concat {α β : Type} (f : α → Option β) (l : List α) (a : α) (d : β) :
    ((l ++ [a]).filterMap f).getLast?.getD d = (f a).getD ((l.filterMap f).getLast?.getD d) := by
  rw [List.filterMap_append]
  cases h : f a <;> simp [h]

theorem thresholdBehind_concat (l : Logger) (us : List Use) (u : Use) :
    l.thresholdBehind (us ++ [u]) = u.level?.getD (l.thresholdBehind us) :=
  getLast?_filterMap_concat Use.level? us u l.threshold

theorem timeBehind_concat (l : Logger) (us : List Use) (u : Use) :
    l.timeBehind (us ++ [u]) = u.time?.getD (l.timeBehind us) :=
  getLast?_filterMap_concat Use.time? us u l.now

theorem threshold_useAll (l : Logger) (us : List Use) :
    (l.useAll us).threshold = l.thresholdBehind us := by
  induction us using List.reverseRecOn with
  | nil => rfl
  | append_singleton us u ih =>
    rw [useAll_concat, threshold_use, ih, thresholdBehind_concat]

theorem now_useAll (l : Logger) (us : List Use) : (l.useAll us).now = l.timeBehind us := by
  induction us using List.reverseRecOn with
  | nil => rfl
  | append_singleton us u ih =>
    rw [useAll_concat, now_use, ih, timeBehind_concat]

theorem entryAt_concat_of_lt (l : Logger) (us : List Use) (u : Use) {i : Nat} (h : i < us.length) :
    l.entryAt (us ++ [u]) i = l.entryAt us i := by
  rw [entryAt, entryAt, List.getElem?_append_left h, List.take_append_of_le_length (Nat.le_of_lt h)]

theorem entryAt_concat_length (l : Logger) (us : List Use) (u : Use) :
    l.entryAt (us ++ [u]) us.length = (l.useAll us).added u := by
  rw [entryAt, List.getElem?_concat_length, List.take_left]
  cases u with
  | log tag notice => rw [added, threshold_useAll, now_useAll]
  | _ => rfl

theorem written_concat (l : Logger) (us : List Use) (u : Use) :
    l.written (us ++ [u]) = l.written us ++ ((l.useAll us).added u).toList := by
  have hold : (List.range us.length).filterMap (l.entryAt (us ++ [u])) = l.written us := by
    refine List.filterMap_congr fun i hi => ?_
    exact l.entryAt_concat_of_lt us u (List.mem_range.1 hi)
  rw [written, List.length_append, List.length_singleton, List.range_succ, List.filterMap_append, hold]
  cases h : (l.useAll us).added u <;> simp [entryAt_concat_length, h]

theorem entries_useAll (l : Logger) (us : List Use) :
    (l.useAll us).entries.toList = l.entries.toList ++ l.written us := by
  induction us using List.reverseRecOn with
  | nil => exact (List.append_nil _).symm
  | append_singleton us u ih =>
    rw [useAll_concat, entries_use, ih, written_concat, List.append_assoc]

end Logger

/-! ## A higher threshold -/

def Entry.reaches (level : Level) (e : Entry) : Bool :=
  decide (level.rank ≤ e.record.level.rank)

namespace Logger

/-- The logger as it would be if its threshold had been higher. -/
def raised (l : Logger) (level : Level) : Logger :=
  { l with threshold := level, entries := l.entries.filter (Entry.reaches level) }

variable {l : Logger}

theorem enabled_debug (h : l.threshold = .debug) (tag : String) : l.enabled tag = true := by
  rw [enabled, h]
  exact decide_eq_true (Nat.zero_le _)

theorem log_raised (h : l.threshold = .debug) (level : Level) (tag : String) (notice : Notice) :
    (l.raised level).log tag notice = (l.log tag notice).raised level := by
  have hr : (l.raised level).enabled tag = Entry.reaches level ⟨l.now, tag, notice⟩ := rfl
  rw [log, log, hr, enabled_debug h, if_pos rfl]
  cases hw : Entry.reaches level ⟨l.now, tag, notice⟩ <;> simp [raised, hw]

end Logger

namespace Journal

/-- The journal of a supervisor whose logger has a threshold and nothing in it. -/
def opened (logger : Logger) (level : Level) : Journal :=
  { logger := { logger with threshold := level, entries := #[] } }

def raised (j : Journal) (level : Level) : Journal :=
  { j with logger := j.logger.raised level }

def Lowest (j : Journal) : Prop := j.logger.threshold = .debug

variable {j : Journal}

theorem heeded_lowest : Heeded Lowest := heeded_threshold .debug

theorem note_raised (h : j.Lowest) (at_ level : Level) (notice : Notice) :
    (j.raised at_).note level notice = (j.note level notice).raised at_ := by
  rw [Journal.note, raised, Logger.note, Logger.log_raised h]
  rfl

theorem noteFault_raised (h : j.Lowest) (level : Level) (tag kind : String) (pc word : Int) :
    (j.raised level).noteFault tag kind pc word = (j.noteFault tag kind pc word).raised level := by
  rw [Journal.noteFault, raised, Logger.log_raised h]
  rfl

end Journal

/-! ## Calls at a higher level -/

namespace Supervisor

/-- The supervisor as it would be if its logger had had a higher threshold. -/
def raised (s : Supervisor) (level : Level) : Supervisor :=
  { s with journal := s.journal.raised level }

variable {s : Supervisor} (h : s.journal.Lowest) (level : Level)

include h

theorem noteChange_raised (before : Machine) :
    (s.raised level).noteChange before = (s.noteChange before).raised level := by
  by_cases hm : s.machine.mode = before.mode
  · simp only [noteChange, raised, hm, ↓reduceIte]
  · cases hb : before.mode.name? <;> cases ha : s.machine.mode.name? <;>
      simp only [noteChange, raised, hm, hb, ha, ↓reduceIte, Journal.noteMode, Journal.note_raised h]

theorem report_raised (f : Fault) (pc word : UInt16) :
    (s.raised level).report f pc word =
      ((s.report f pc word).1.raised level, (s.report f pc word).2) := by
  have hj := Journal.noteFault_raised h level (faultLevel f).name f.name pc.toNat word.toNat
  by_cases hf : (f.isStackFault || s.strict) = true <;> simp only [report, raised, hf, hj] <;> rfl

theorem cycled_raised : (s.raised level).cycled = s.cycled.raised level :=
  noteChange_raised (s := { s with machine := s.machine.step, cycles := s.cycles + 1 }) h level
    s.machine

theorem step_raised : (s.raised level).step = (s.step.1.raised level, s.step.2) := by
  by_cases hh : s.machine.mode = .halted
  · rw [step_of_halted hh, step_of_halted (s := s.raised level) hh]
    rfl
  · have hm : (s.raised level).machine = s.machine := rfl
    rw [step_eq hh, step_eq (s := s.raised level) hh, hm, cycled_raised h]
    cases s.machine.cycleFault? with
    | none => rfl
    | some f => exact report_raised (Journal.heeded_lowest.cycled h) level f _ _

theorem runFrom_raised (ran n : Nat) :
    (s.raised level).runFrom ran n = ((s.runFrom ran n).1.raised level, (s.runFrom ran n).2) := by
  induction n generalizing s ran with
  | zero => rfl
  | succ n ih =>
    rw [runFrom_succ, runFrom_succ, step_raised h]
    have hh : (s.raised level).isHalted = s.isHalted := rfl
    rw [hh]
    split
    · rfl
    · have hs := Journal.heeded_lowest.step h
      cases hstep : s.step with
      | mk s' result =>
        rw [hstep] at hs
        cases result with
        | ok word => exact ih hs (ran + 1)
        | error e => rfl

theorem run_raised (n : Int) :
    (s.raised level).run n = ((s.run n).1.raised level, (s.run n).2) := by
  have hl := Journal.heeded_lowest.followed.runFrom (h := {}) h 0 n.toNat
  have hr := runFrom_raised h level 0 n.toNat
  rw [run, run, hr]
  cases hrun : s.runFrom 0 n.toNat with
  | mk s' result =>
    rw [hrun] at hl
    cases result with
    | error e => rfl
    | ok ran =>
      simp only [note, raised, Journal.note_raised hl]
      rfl

theorem runFrame_raised (n : Nat) :
    (s.raised level).runFrame n = ((s.runFrame n).1.raised level, (s.runFrame n).2) := by
  rw [runFrame, runFrame, run_raised h]
  cases s.run n with
  | mk s' result => cases result <;> rfl

theorem load_raised (data : ProgramData) (source : Option String) :
    (s.raised level).load data source =
      ((s.load data source).1.raised level, (s.load data source).2) := by
  unfold load
  cases data.image with
  | error e => rfl
  | ok image =>
    have hm : (s.raised level).machine = s.machine := rfl
    simp only [ok_bind, hm]
    cases s.machine.loadImage image with
    | error e => rfl
    | ok machine =>
      simp only [ok_bind, raised, Journal.noteLoad, Journal.note_raised h]
      rfl

theorem halt_raised : (s.raised level).halt = (s.halt.1.raised level, s.halt.2) := by
  have hh : (s.raised level).isHalted = s.isHalted := rfl
  have hn : (s.raised level).modeName = s.modeName := rfl
  unfold halt
  rw [hh, hn]
  split
  · rfl
  · cases s.modeName with
    | error e => rfl
    | ok old =>
      simp only [raised, Journal.noteMode, Journal.note_raised h]

theorem resume_raised : (s.raised level).resume = s.resume.raised level := by
  have hh : (s.raised level).isHalted = s.isHalted := rfl
  unfold resume
  rw [hh]
  split
  · simp only [raised, Journal.noteMode, Journal.note_raised h]
  · rfl

theorem reset_raised : (s.raised level).reset = s.reset.raised level := by
  simp only [reset, note, raised, Journal.note_raised h]

omit h in
theorem consumeRedraw_raised :
    (s.raised level).consumeRedraw = (s.consumeRedraw.1.raised level, s.consumeRedraw.2) := by
  have hr : (s.raised level).machine.redraw = s.machine.redraw := rfl
  unfold consumeRedraw
  rw [hr]
  split <;> rfl

/-- A call leaves and answers the same at a higher level, up to the records that stay below it. -/
theorem answer_raised (r : Request) : (s.raised level).answer r =
    ((s.answer r).1.raised level, (s.answer r).2) := by
  cases r with
  | load data source => simp only [answer, replying, load_raised h]
  | step => simp only [answer, replying, step_raised h]
  | run cycles => simp only [answer, replying, run_raised h]
  | runFrame cycles => simp only [answer, replying, runFrame_raised h]
  | halt => simp only [answer, replying, halt_raised h]
  | resume => simp only [answer, resume_raised h]
  | consumeRedraw => simp only [answer, consumeRedraw_raised]
  | reset => simp only [answer, reset_raised h]
  | tick | setKey | releaseKeys => rfl

theorem call_raised (c : Call) :
    (s.raised level).call c = ((s.call c).1.raised level, (s.call c).2) := by
  unfold call
  cases c.request with
  | error e => rfl
  | ok r => exact answer_raised h level r

omit h in
theorem wait_raised (now : Float) : (s.raised level).wait now = (s.wait now).raised level := rfl

theorem afterTimed_raised (calls : List (Float × Call)) :
    (s.raised level).afterTimed calls = (s.afterTimed calls).raised level ∧
      (s.afterTimed calls).journal.Lowest := by
  induction calls generalizing s with
  | nil => exact ⟨rfl, h⟩
  | cons c rest ih =>
    have hw : (s.wait c.1).journal.Lowest := h
    show ((((s.raised level).wait c.1).call c.2).1.afterTimed rest = _) ∧ _
    rw [wait_raised, call_raised hw]
    exact ih (Journal.heeded_lowest.followed.call (h := {}) hw c.2)

/-! ## Supervisors at all levels -/

omit h in
theorem create_raised (seed : Value) (strict : Bool) (logger : Logger) :
    create seed strict (.ok (.opened logger level)) =
      (create seed strict (.ok (.opened logger .debug))).map (·.raised level) := by
  rw [create, create]
  cases Argument.seed seed with
  | error e => rfl
  | ok i =>
    rw [ok_bind, ok_bind, ok_bind, ok_bind]
    cases Argument.randomKey i with
    | error e => rfl
    | ok key =>
      have hl : (Journal.opened logger .debug).Lowest := rfl
      exact congrArg Except.ok (reset_raised
        (s := ⟨.initial key, key, strict, 0, Journal.opened logger .debug⟩) hl level)

omit h in
theorem lowest_create {seed : Value} {strict : Bool} {logger : Logger}
    (hc : create seed strict (.ok (.opened logger .debug)) = .ok s) : s.journal.Lowest := by
  obtain ⟨journal, key, ⟨⟩, rfl⟩ := create_eq hc
  exact (Journal.threshold_log _ _ _).trans rfl

/-- Two supervisors that nothing but their records tells apart. -/
structure Together (s t : Supervisor) : Prop where
  machine : s.machine = t.machine
  cycles : s.cycles = t.cycles
  faults : s.journal.faults = t.journal.faults
  answers : ∀ now c, ((s.wait now).call c).2 = ((t.wait now).call c).2

theorem together_raised (level' : Level) : (s.raised level).Together (s.raised level') where
  machine := rfl
  cycles := rfl
  faults := rfl
  answers now c := by
    have hw : (s.wait now).journal.Lowest := h
    rw [wait_raised, wait_raised, call_raised hw, call_raised hw]

/-- A supervisor for each level, all of them created in one way. -/
structure Levelled (seed : Value) (strict : Bool) (logger : Logger) (s : Level → Supervisor) :
    Prop where
  created : ∀ level, create seed strict (.ok (.opened logger level)) = .ok (s level)
  together : ∀ calls level level',
    ((s level).afterTimed calls).Together ((s level').afterTimed calls)
  entries : ∀ calls level, ((s level).afterTimed calls).journal.logger.entries.toList =
    ((s .debug).afterTimed calls).journal.logger.entries.toList.filter (Entry.reaches level)

omit h in
theorem levelled_raised {seed : Value} {strict : Bool} {logger : Logger}
    (hc : create seed strict (.ok (.opened logger .debug)) = .ok s) :
    Levelled seed strict logger s.raised where
  created level := by rw [create_raised, hc]; rfl
  together calls level level' := by
    have hs := lowest_create hc
    rw [(afterTimed_raised hs level calls).1, (afterTimed_raised hs level' calls).1]
    exact together_raised (afterTimed_raised hs level calls).2 level level'
  entries calls level := by
    have hs := lowest_create hc
    have hall : ∀ e : Entry, e.reaches .debug = true := fun e => decide_eq_true (Nat.zero_le _)
    rw [(afterTimed_raised hs level calls).1, (afterTimed_raised hs .debug calls).1]
    simp [raised, Journal.raised, Logger.raised, hall]

end Supervisor

/-! ## Thresholds filter -/

theorem Argument.level_eq_ok_iff (v : Value) (l : Level) :
    Argument.level v = .ok l ↔ ∃ s, v = .text s ∧ Level.Spelled s l := by
  cases v with
  | text s =>
    simp only [Argument.level, Value.text.injEq, exists_eq_left', ← Level.ofText?_eq_some_iff]
    cases Level.ofText? s <;> simp
  | _ => simp [Argument.level]

/-- A logger behind a number of uses: what was written, the threshold, and that a use that fails leaves
the logger as it was. -/
structure Logger.Filters (l : Logger) (uses : List Logger.Use) : Prop where
  entries : (l.useAll uses).entries.toList = l.entries.toList ++ l.written uses
  threshold : (l.useAll uses).threshold = l.thresholdBehind uses
  refused : ∀ u e, ((l.useAll uses).use u).2 = .error e → ((l.useAll uses).use u).1 = l.useAll uses

/-- Supervisors that are created at different levels, if they can be created at all, go along with each
other through all calls, and each writes the records of the lowest that reach its level. A logger in
direct use writes the records that reach the threshold set last. What a tag weighs, and what is
accepted as a threshold, is a matter of spelling. -/
theorem threshold_only_filters :
    (∀ (seed : Value) (strict : Bool) (logger : Logger),
      (∃ e, ∀ level, Supervisor.create seed strict (.ok (.opened logger level)) = .error e) ∨
        ∃ s, Supervisor.Levelled seed strict logger s) ∧
    (∀ (l : Logger) (uses : List Logger.Use), l.Filters uses) ∧
    (∀ tag level, Level.ofTag tag = level ↔ Level.Weighs tag level) ∧
    ∀ v level, Argument.level v = .ok level ↔ ∃ s, v = .text s ∧ Level.Spelled s level := by
  refine ⟨fun seed strict logger => ?_, fun l uses => ?_, Level.ofTag_eq_iff, Argument.level_eq_ok_iff⟩
  · cases hc : Supervisor.create seed strict (.ok (.opened logger .debug)) with
    | error e => exact .inl ⟨e, fun level => by rw [Supervisor.create_raised, hc]; rfl⟩
    | ok s => exact .inr ⟨_, Supervisor.levelled_raised hc⟩
  · exact ⟨l.entries_useAll uses, l.threshold_useAll uses, fun u e => Logger.use_of_error _⟩

/-- There is a supervisor at each level, for one seed at least. A logger that writes warnings is asked to
be louder in a word that is no level: it still writes warnings, and a tag that is no level still counts
as less. -/
theorem threshold_only_filters_refused :
    (∃ s, Supervisor.Levelled (.integer 0) true {} s) ∧
    let l : Logger := { threshold := .warning }
    let refused : Logger.Use := .setLevel (.text "loud")
    let uses := [refused, .log "Error" .restarted, .log "odd" .controls]
    (l.use refused).1 = l ∧ (l.useAll uses).entries.toList = [⟨0, ⟨"Error", .restarted⟩⟩] := by
  refine ⟨?_, ?_⟩
  · rcases threshold_only_filters.1 (.integer 0) true {} with ⟨e, he⟩ | hs
    · have hc := Supervisor.create_ok (show 0 < 0x8000000000000000 by decide) true
        (.opened {} .debug)
      cases hc.symm.trans (he .debug)
    · exact hs
  intro l refused uses
  have hloud : Level.ofText? "loud" = none := by decide +kernel
  refine ⟨?_, ?_⟩
  · have hu : ((l.useAll []).use refused).2 = .error (.levelRefused "loud") := by
      simp only [refused, Logger.use, Argument.level, hloud]
    exact (threshold_only_filters.2.1 l []).refused refused _ hu
  · rw [(threshold_only_filters.2.1 l uses).entries]
    have herror : Level.ofTag "Error" = .error := by decide +kernel
    have hodd : Level.ofTag "odd" = .info := by decide +kernel
    simp [Logger.written, Logger.entryAt, Logger.thresholdBehind, Logger.timeBehind,
      Logger.Use.level?, Logger.Use.time?, List.range_succ, uses, refused, l, hloud, herror, hodd,
      Level.rank]

end Chip8
