import Chip8.Proofs.Invariant
import Chip8.Proofs.Notices

/-! What a supervisor writes down against what happened. Its journal, at the lowest level, takes down of a
deed what there is to say about it; so the cycles, the tally of faults and the notices of a supervisor
are those of its history, no more and no less. -/

namespace Chip8

/-! ## What the journal takes down -/

namespace Journal

/-- The journal of a supervisor's own, at the lowest level and with nothing in it. -/
def own (logger : Logger) : Journal :=
  { logger := { logger with threshold := .debug, entries := #[] } }

def notices (j : Journal) : List Notice :=
  j.logger.records.map Record.notice

/-- A journal at the lowest level takes down everything. -/
theorem notices_log {j : Journal} (h : j.logger.threshold = .debug) (tag : String) (n : Notice) :
    ({ j with logger := j.logger.log tag n } : Journal).notices = j.notices ++ [n] := by
  have he : j.logger.enabled tag = true := by
    rw [Logger.enabled, h]
    exact decide_eq_true (Nat.zero_le _)
  simp only [notices, Logger.records, Logger.log, he, ↓reduceIte, Array.toList_push,
    List.map_append, List.map_cons, List.map_nil]

/-- From one journal to the next, over one deed. -/
structure Takes (j : Journal) (d : Deed) (j' : Journal) : Prop where
  debug : j'.logger.threshold = .debug
  notices : j'.notices = j.notices ++ d.notices
  faults : j'.faults = match d.fault? with
    | some f => j.faults.add f.name
    | none => j.faults

variable {j : Journal} {d : Deed}

/-- There is nothing to say about a deed without a fault that leaves the mode alone. -/
theorem takes_nothing (h : j.logger.threshold = .debug) (hf : d.fault? = none)
    (hm : d.after.mode = d.before.mode) : j.Takes d j where
  debug := h
  notices := by
    rw [Deed.notices, Deed.changeNotices, Deed.change?_of_same hm, Deed.faultNotices, Deed.report?, hf]
    exact (List.append_nil _).symm
  faults := by rw [hf]

theorem takes_change (h : j.logger.threshold = .debug) (hf : d.fault? = none)
    (hm : d.after.mode ≠ d.before.mode) {old new : String} (hold : d.before.mode.name? = some old)
    (hnew : d.after.mode.name? = some new) :
    j.Takes d (j.noteMode old new d.before.pc.toNat) where
  debug := (threshold_log _ _ _).trans h
  notices := by
    rw [Deed.notices, Deed.changeNotices, Deed.change?_of_ne hm, hold, hnew, Deed.faultNotices,
      Deed.report?, hf]
    exact notices_log h _ _
  faults := by rw [hf]; rfl

end Journal

namespace Supervisor

/-- The first half of what a step takes down. -/
theorem journal_cycled {s : Supervisor} (hd : s.journal.logger.threshold = .debug)
    (hn : (Deed.cycle s.machine).Named) :
    s.cycled.journal.logger.threshold = .debug ∧
      s.cycled.journal.notices = s.journal.notices ++ (Deed.cycle s.machine).changeNotices ∧
      s.cycled.journal.faults = s.journal.faults := by
  obtain ⟨⟨old, hold⟩, new, hnew⟩ := hn
  by_cases h : (Deed.cycle s.machine).after.mode = (Deed.cycle s.machine).before.mode
  · have hs : s.cycled = { s with machine := s.machine.step, cycles := s.cycles + 1 } := if_pos h
    rw [hs, Deed.changeNotices, Deed.change?_of_same h, List.append_nil]
    exact ⟨hd, rfl, rfl⟩
  · have hs : s.cycled.journal = s.journal.noteMode old new s.machine.pc.toNat := by
      have hne : s.machine.step.mode ≠ s.machine.mode := h
      simp only [cycled, noteChange, hne, ↓reduceIte, show s.machine.mode.name? = some old from hold,
        show s.machine.step.mode.name? = some new from hnew]
    rw [hs, Deed.changeNotices, Deed.change?_of_ne h, hold, hnew]
    exact ⟨(Journal.threshold_log _ _ _).trans hd, Journal.notices_log hd _ _, rfl⟩

/-- The second half. -/
theorem journal_report (s : Supervisor) (f : Fault) (pc word : UInt16) :
    (s.report f pc word).1.journal =
      s.journal.noteFault (faultLevel f).name f.name pc.toNat word.toNat := by
  rw [report]
  split <;> rfl

theorem takes_step {s : Supervisor} (hd : s.journal.logger.threshold = .debug)
    (hn : (Deed.cycle s.machine).Named) :
    s.journal.Takes (.cycle s.machine) s.step.1.journal := by
  by_cases hh : s.machine.mode = .halted
  · have hf : (Deed.cycle s.machine).fault? = none := by
      rw [Deed.fault?, Machine.cycleFault?, hh]
      rfl
    rw [step_of_halted hh]
    refine Journal.takes_nothing hd hf ?_
    rw [Deed.after, Machine.step_of_halted hh, Deed.before]
  · obtain ⟨hdebug, hnotices, hfaults⟩ := journal_cycled hd hn
    rw [step_eq hh]
    cases hf : s.machine.cycleFault? with
    | none =>
      have hd' : (Deed.cycle s.machine).fault? = none := hf
      refine ⟨hdebug, ?_, by rw [hd', hfaults]⟩
      rw [hnotices, Deed.notices, Deed.faultNotices, Deed.report?, hd']
      exact congrArg _ (List.append_nil _).symm
    | some f =>
      have hd' : (Deed.cycle s.machine).fault? = some f := hf
      simp only [journal_report]
      refine ⟨(Journal.threshold_log _ _ _).trans hdebug, ?_, by rw [hd', ← hfaults]; rfl⟩
      rw [Deed.notices, ← List.append_assoc, ← hnotices, Deed.faultNotices, Deed.report?, hd']
      exact Journal.notices_log (j := s.cycled.journal.countFault f.name) hdebug _ _

theorem takes_halt {s : Supervisor} (hd : s.journal.logger.threshold = .debug)
    (hn : (Deed.halt s.machine).Named) :
    s.journal.Takes (.halt s.machine) s.halt.1.journal := by
  obtain ⟨⟨name, hname⟩, -⟩ := hn
  rcases s.halt_eq with ⟨hm, old, hold, he⟩ | ⟨hm, he⟩ <;> rw [he]
  · exact Journal.takes_change (d := .halt s.machine) hd rfl (Ne.symm hm) hold rfl
  · rcases hm with hm | hm
    · exact Journal.takes_nothing (d := .halt s.machine) hd rfl hm.symm
    · cases hname.symm.trans hm

theorem takes_resume {s : Supervisor} (hd : s.journal.logger.threshold = .debug) :
    s.journal.Takes (.resume s.machine) s.resume.journal := by
  by_cases hm : s.machine.mode = .halted
  · have ha : (Deed.resume s.machine).after.mode = .running := by rw [Deed.after, if_pos hm]
    have hb : (Deed.resume s.machine).before.mode = .halted := hm
    rw [resume_of_halted hm]
    refine Journal.takes_change hd rfl ?_ ?_ ?_
    · rw [ha, hb]; rintro ⟨⟩
    · rw [hb]; rfl
    · rw [ha]; rfl
  · rw [resume_of_not_halted hm]
    refine Journal.takes_nothing hd rfl ?_
    rw [Deed.after, if_neg hm, Deed.before]

end Supervisor

/-! ## The invariant -/

theorem Machine.Sound.named {m : Machine} (h : m.Sound) : ∃ name, m.mode.name? = some name := by
  rcases h.mode with hm | hm | hm <;> rw [hm] <;> exact ⟨_, rfl⟩

/-- How many of the instructions that were executed ended with a fault of a kind. -/
def History.faulted (h : History) (kind : String) : Nat :=
  h.all.countP fun d => d.fault?.map Fault.name = some kind

theorem History.faulted_add (h : History) (d : Deed) (kind : String) :
    (h.add d).faulted kind =
      h.faulted kind + if d.fault?.map Fault.name = some kind then 1 else 0 := by
  rw [faulted, all_add, List.countP_append, List.countP_singleton, faulted]
  simp only [decide_eq_true_eq]

namespace Supervisor

/-- A supervisor whose counters and notices are up to date with its history. -/
structure Recorded (s : Supervisor) (h : History) : Prop where
  sound : s.machine.Sound
  debug : s.journal.logger.threshold = .debug
  cycles : s.cycles = h.recent.countP Deed.isLive
  proper : Tally.Proper s.journal.faults
  count : ∀ kind, Tally.count s.journal.faults kind = h.faulted kind
  told : h.Told s.journal.notices s.machine.mode.name?

variable {s s' : Supervisor} {h : History}

/-- A deed keeps everything up to date, when the machine, the cycles and the journal move with it. -/
theorem Recorded.deed (hs : s.Recorded h) {d : Deed} (hb : d.before = s.machine)
    (hm : s'.machine = d.after) (hsound : s'.machine.Sound)
    (hc : s'.cycles = s.cycles + if d.isLive then 1 else 0) (hj : s.journal.Takes d s'.journal) :
    s'.Recorded (h.add d) where
  sound := hsound
  debug := hj.debug
  cycles := by
    rw [hc, hs.cycles, History.add, List.countP_append, List.countP_singleton]
  proper := by
    rw [hj.faults]
    split
    · exact hs.proper.add _
    · exact hs.proper
  count kind := by
    rw [hj.faults, h.faulted_add]
    cases hf : d.fault? with
    | none => simpa using hs.count kind
    | some f =>
      simp only [Tally.count_add, hs.count kind, Option.map_some, Option.some.injEq, eq_comm]
  told := by
    have ht := hs.told
    rw [← hb] at ht
    rw [hj.notices, hm]
    refine ht.deed ⟨?_, ?_⟩
    · rw [hb]
      exact hs.sound.named
    · rw [← hm]
      exact hsound.named

/-- A notice about something else, beside a machine in the same mode. -/
theorem Recorded.note (hs : s.Recorded h) (hm : s'.machine.mode = s.machine.mode)
    (hsound : s'.machine.Sound) (hc : s'.cycles = s.cycles) {level : Level} {n : Notice}
    (hj : s'.journal = s.journal.note level n) (hn : n.Quiet) : s'.Recorded h where
  sound := hsound
  debug := by
    rw [hj]
    exact (Journal.threshold_log _ _ _).trans hs.debug
  cycles := hc.trans hs.cycles
  proper := by
    rw [hj]
    exact hs.proper
  count := by
    rw [hj]
    exact hs.count
  told := by
    rw [hj, hm, show (s.journal.note level n).notices = _ from Journal.notices_log hs.debug _ n]
    exact hs.told.quiet hn

theorem Recorded.reset (hs : s.Recorded h) : s.reset.Recorded h.reset := by
  have hm : s.reset.machine = .initial s.key := machine_reset s
  refine ⟨?_, ?_, rfl, hs.proper, ?_, ?_⟩
  · rw [hm]
    exact Machine.sound_initial _
  · exact (Journal.threshold_log _ _ _).trans hs.debug
  · intro kind
    rw [History.faulted, h.all_reset]
    exact hs.count kind
  · rw [hm]
    have hj : s.reset.journal.notices = s.journal.notices ++ [.machineReset] :=
      Journal.notices_log hs.debug _ _
    rw [hj]
    exact hs.told.reset

theorem machine_halt_of_named (hn : ∃ name, s.machine.mode.name? = some name) :
    s.halt.1.machine = { s.machine with mode := .halted } := by
  obtain ⟨name, hname⟩ := hn
  rcases s.halt_eq with ⟨-, old, -, he⟩ | ⟨hm, he⟩ <;> rw [he]
  have hh : s.machine.mode = .halted := hm.resolve_right (by rw [hname]; rintro ⟨⟩)
  rw [← hh]

theorem followed_recorded : Followed Recorded where
  cycle {s h} hs := by
    have hsound := Machine.kept_sound.step _ hs.sound
    rw [← machine_step] at hsound
    have hn := hsound.named
    rw [machine_step] at hn
    exact hs.deed rfl s.machine_step hsound s.cycles_step_eq (takes_step hs.debug ⟨hs.sound.named, hn⟩)
  halt {s h} hs := by
    have hn : (Deed.halt s.machine).Named := ⟨hs.sound.named, "HALTED", rfl⟩
    refine hs.deed rfl ?_ (Machine.kept_sound.halt hs.sound) ?_ (takes_halt hs.debug hn)
    · exact machine_halt_of_named hs.sound.named
    · obtain ⟨journal, mode, he⟩ := s.halt_only
      rw [he]
      rfl
  resume {s h} hs := by
    refine hs.deed rfl s.machine_resume (Machine.kept_sound.resume hs.sound) ?_
      (takes_resume hs.debug)
    obtain ⟨journal, mode, fault, he⟩ := s.resume_only
    rw [he]
    rfl
  load {s h} hs image size source :=
    hs.note (Machine.mode_loaded _ image) (Machine.kept_sound.loaded _ image hs.sound) rfl rfl trivial
  host {s h} hs delay sound keys redraw := by
    obtain ⟨hsound, hdebug, hcycles, hproper, hcount, htold⟩ := hs
    exact ⟨hsound.congr rfl rfl rfl rfl, hdebug, hcycles, hproper, hcount, htold⟩
  ran hs cycles elapsed := hs.note rfl hs.sound rfl rfl trivial
  reset hs := hs.reset

theorem recorded_create {seed : Value} {strict : Bool} {logger : Logger}
    (h : create seed strict (.ok (.own logger)) = .ok s) : s.Recorded {} := by
  obtain ⟨journal, key, ⟨⟩, rfl⟩ := create_eq h
  have hm := machine_reset { machine := .initial key, key, strict, journal := .own logger }
  have hj : ({ machine := .initial key, key, strict, journal := .own logger
      : Supervisor }.reset).journal.notices = [] ++ [.machineReset] :=
    Journal.notices_log (j := .own logger) rfl _ _
  refine ⟨?_, Journal.threshold_log _ _ _, rfl, ⟨List.nodup_nil, ?_⟩, fun _ => rfl, ?_⟩
  · rw [hm]
    exact Machine.sound_initial key
  · exact fun e he => (List.not_mem_nil he).elim
  · rw [hm, hj]
    have ht : History.Told {} [] none := ⟨rfl, rfl, Notice.chained_nil, rfl⟩
    exact ht.reset

/-! ## Exact records -/

/-- The records of a supervisor are those of its history.

* The cycles are the steps since the last reset that began on a machine that was not halted.
* The tally has an entry for each kind of fault that some executed instruction ended with, with the
  number of these instructions, and no other; the notices are as many, and say in order which they were.
* Each notice of a change of mode goes on from the mode that the notices before it lead to, all of them
  together lead to the mode of the machine, and they are the changes that there were, in order. -/
structure Exact (s : Supervisor) (h : History) : Prop where
  cycles : s.cycles = h.recent.countP Deed.isLive
  tally : ∀ kind n, (kind, n) ∈ s.journal.faults ↔ h.faulted kind = n ∧ 0 < n
  kinds : (s.journal.faults.map Prod.fst).Nodup
  count : ∀ kind, s.journal.notices.countP (Notice.isFault kind) = h.faulted kind
  reports : s.journal.notices.filterMap Notice.report? = h.all.filterMap Deed.report?
  chained : Notice.Chained s.journal.notices
  mode : ∃ name, s.machine.mode.name? = some name ∧ Notice.modeRead s.journal.notices = some name
  changes : s.journal.notices.filterMap Notice.change? = h.all.filterMap Deed.change?

theorem countP_isFault {ns : List Notice} (ht : ns.filterMap Notice.report? =
    h.all.filterMap Deed.report?) (kind : String) : ns.countP (Notice.isFault kind) = h.faulted kind := by
  have hn : ns.countP (Notice.isFault kind) =
      (ns.filterMap Notice.report?).countP fun r => r.1 = kind := by
    rw [List.countP_filterMap]
    refine List.countP_congr fun n _ => ?_
    rw [Notice.isFault]
    cases n.report? <;> simp
  have hd : h.faulted kind = (h.all.filterMap Deed.report?).countP fun r => r.1 = kind := by
    rw [List.countP_filterMap, History.faulted]
    refine List.countP_congr fun d _ => ?_
    rw [Deed.report?]
    cases d.fault? <;> simp
  rw [hn, ht, hd]

theorem Recorded.exact (hs : s.Recorded h) : s.Exact h where
  cycles := hs.cycles
  tally kind n := by rw [hs.proper.mem_iff, hs.count]
  kinds := hs.proper.nodup
  count := countP_isFault hs.told.reports
  reports := hs.told.reports
  chained := hs.told.chained
  mode := by
    obtain ⟨name, hname⟩ := hs.sound.named
    exact ⟨name, hname, hs.told.mode.trans hname⟩
  changes := hs.told.changes

/-- Whatever is done with a supervisor whose journal is its own and at the lowest level, errors
included, its records are exact. -/
theorem records_exact {seed : Value} {strict : Bool} {logger : Logger}
    (h : create seed strict (.ok (.own logger)) = .ok s) (calls : List Call) :
    (s.afterCalls calls).Exact (s.history calls) :=
  (followed_recorded.history (recorded_create h) calls).exact

/-- At power-on the next word is unknown, whatever the key. -/
theorem cycleFault?_initial (key : Random.Key) :
    (Machine.initial key).cycleFault? = some .unknownOpcode := by
  rw [Machine.cycleFault?_eq_some_iff, Machine.Faults, Machine.current?, Machine.fetch_initial]
  exact ⟨rfl, rfl⟩

/-- A strict supervisor without a program: an error, a halt, a step that does nothing, a new start, and
the same error again. One cycle is counted since the reset, but both faults are. -/
theorem records_exact_restarted :
    ∃ s, create (.integer 0) true (.ok (.own {})) = .ok s ∧
      let calls := [.step, .halt, .step, .resume, .reset, .step]
      let s' := s.afterCalls calls
      s'.Exact (s.history calls) ∧ s'.cycles = 1 ∧ ("UnknownOpcode", 2) ∈ s'.journal.faults := by
  obtain ⟨s, hs⟩ : ∃ s, create (.integer 0) true (.ok (.own {})) = .ok s :=
    ⟨_, create_ok (show 0 < 0x8000000000000000 by decide) true (.own {})⟩
  obtain ⟨key, hm⟩ := machine_create hs
  have hsound : s.step.1.machine.Sound := by
    rw [machine_step, hm]
    exact (Machine.sound_initial key).step
  have hhalt := machine_halt_of_named hsound.named
  have hreset := s.step.1.halt.1.step.1.resume.machine_reset
  have hh : s.history [.step, .halt, .step, .resume, .reset, .step] =
      ⟨[.cycle s.machine, .halt s.step.1.machine, .cycle s.step.1.halt.1.machine,
          .resume s.step.1.halt.1.step.1.machine],
        [.cycle s.step.1.halt.1.step.1.resume.reset.machine]⟩ := rfl
  have hexact := records_exact hs [.step, .halt, .step, .resume, .reset, .step]
  refine ⟨s, hs, hexact, ?_, ?_⟩
  · rw [hexact.cycles, hh, hreset]
    rfl
  · have hidle : s.step.1.halt.1.machine.cycleFault? = none := by
      rw [hhalt]
      rfl
    rw [hexact.tally, hh, hm, hreset]
    simp [History.faulted, History.all, Deed.fault?, cycleFault?_initial, hidle, Fault.name]

end Supervisor

end Chip8
