import Chip8.Proofs.History
import Chip8.Proofs.Recognition

/-! Two supervisors that differ in nothing but strictness. A strict one raises what the other passes over
in silence, and it does so only when everything about the step has been taken down; so the two stay
together, call by call. A run is another matter, since the error ends it: there the strict one catches up
when it is run again, with the cycles that are left, after each unknown word. -/

namespace Chip8

/-- The next cycle executes a word that matches no pattern. -/
def Machine.StepsUnknown (m : Machine) : Prop :=
  m.mode = .running ∧ Pattern.Unknown m.fetch.toNat

theorem Machine.stepsUnknown_iff (m : Machine) :
    m.StepsUnknown ↔ m.cycleFault? = some .unknownOpcode := by
  rw [cycleFault?_eq_some_iff, Faults, current?, Instruction.ofFields?_eq_none_iff, StepsUnknown]

/-- A number of cycles at once. -/
def Call.Batch : Call → Prop
  | run _ | runFrame _ => True
  | _ => False

namespace Supervisor

/-- The same supervisor, strict. -/
def strictly (s : Supervisor) : Supervisor := { s with strict := true }

theorem create_strictly (seed : Value) (journal : Except Error Journal) :
    create seed true journal = (create seed false journal).map strictly := by
  rw [create, create]
  cases Argument.seed seed with
  | error e => rfl
  | ok i =>
    cases journal with
    | error e => rfl
    | ok j =>
      rw [ok_bind, ok_bind, ok_bind, ok_bind]
      cases Argument.randomKey i with
      | error e => rfl
      | ok key => rfl

/-! ## One step -/

theorem noteChange_strictly (s : Supervisor) (before : Machine) :
    s.strictly.noteChange before = (s.noteChange before).strictly := by
  by_cases h : s.machine.mode = before.mode
  · simp only [noteChange, strictly, h, ↓reduceIte]
  · cases hb : before.mode.name? <;> cases ha : s.machine.mode.name? <;>
      simp only [noteChange, strictly, h, hb, ha, ↓reduceIte]

theorem report_strictly (s : Supervisor) (f : Fault) (pc word : UInt16) :
    (s.strictly.report f pc word).1 = (s.report f pc word).1.strictly := by
  simp only [report, strictly]
  cases f.isStackFault <;> cases s.strict <;> rfl

/-- Strict or not, a step leaves the same behind. -/
theorem step_strictly (s : Supervisor) : s.strictly.step.1 = s.step.1.strictly := by
  by_cases h : s.machine.mode = .halted
  · rw [step_of_halted h, step_of_halted (s := s.strictly) h]
  · have hs : s.strictly.cycled = s.cycled.strictly :=
      noteChange_strictly { s with machine := s.machine.step, cycles := s.cycles + 1 } s.machine
    have hm : s.strictly.machine.cycleFault? = s.machine.cycleFault? := rfl
    rw [step_eq h, step_eq (s := s.strictly) h, hm, hs]
    cases s.machine.cycleFault? with
    | none => rfl
    | some f => exact report_strictly s.cycled f _ _

theorem answer_step_unknown {s : Supervisor} (hs : s.strict = false) (h : s.machine.StepsUnknown) :
    s.strictly.step.2 = .error (.execution .unknownOpcode s.machine.pc s.machine.fetch) ∧
      s.step.2 = .ok s.machine.fetch := by
  have hf := s.machine.stepsUnknown_iff.1 h
  have hf' : s.strictly.machine.cycleFault? = some .unknownOpcode := hf
  rw [answer_step, answer_step, stepAnswer, stepAnswer, hf, hf', hs]
  exact ⟨rfl, rfl⟩

theorem answer_step_strictly {s : Supervisor} (h : ¬ s.machine.StepsUnknown) :
    s.strictly.step.2 = s.step.2 := by
  rw [Machine.stepsUnknown_iff] at h
  have hm : s.strictly.machine.cycleFault? = s.machine.cycleFault? := rfl
  rw [answer_step, answer_step, stepAnswer, stepAnswer, hm]
  cases hf : s.machine.cycleFault? with
  | none => rfl
  | some f =>
    -- what is left are the stack faults, which are errors on both sides
    cases f with
    | unknownOpcode => exact absurd hf h
    | stackOverflow | stackUnderflow => rfl

/-! ## One call -/

theorem load_strictly (s : Supervisor) (data : ProgramData) (source : Option String) :
    s.strictly.load data source = ((s.load data source).1.strictly, (s.load data source).2) := by
  unfold load
  simp only [strictly]
  cases data.image with
  | error e => rfl
  | ok image =>
    simp only [ok_bind]
    cases s.machine.loadImage image <;> rfl

theorem halt_strictly (s : Supervisor) : s.strictly.halt = (s.halt.1.strictly, s.halt.2) := by
  have hh : s.strictly.isHalted = s.isHalted := rfl
  have hn : s.strictly.modeName = s.modeName := rfl
  unfold halt
  rw [hh, hn]
  split
  · rfl
  · cases s.modeName <;> rfl

theorem resume_strictly (s : Supervisor) : s.strictly.resume = s.resume.strictly := by
  have hh : s.strictly.isHalted = s.isHalted := rfl
  unfold resume
  rw [hh]
  split <;> rfl

theorem consumeRedraw_strictly (s : Supervisor) :
    s.strictly.consumeRedraw = (s.consumeRedraw.1.strictly, s.consumeRedraw.2) := by
  have hr : s.strictly.machine.redraw = s.machine.redraw := rfl
  unfold consumeRedraw
  rw [hr]
  split <;> rfl

theorem reset_strictly (s : Supervisor) : s.strictly.reset = s.reset.strictly := by
  unfold reset note strictly
  with_reducible rfl

/-- A call that is no batch leaves the same behind on both, and has the same answer on both unless it is
a step of an unknown word. -/
theorem call_strictly (s : Supervisor) {c : Call} (hc : ¬ c.Batch) :
    (s.strictly.call c).1 = (s.call c).1.strictly ∧
      (¬ (c = .step ∧ s.machine.StepsUnknown) → (s.strictly.call c).2 = (s.call c).2) := by
  unfold call
  cases c with
  | run | runFrame => exact absurd trivial hc
  | load data source =>
    simp only [Call.request, answer, replying, load_strictly]
    exact ⟨trivial, fun _ => trivial⟩
  | step =>
    simp only [Call.request, answer, replying, step_strictly]
    refine ⟨trivial, fun h => ?_⟩
    rw [answer_step_strictly fun hu => h ⟨trivial, hu⟩]
  | setKey key pressed =>
    rw [Call.request]
    cases Argument.key key <;> exact ⟨rfl, fun _ => rfl⟩
  | tick | releaseKeys => exact ⟨rfl, fun _ => rfl⟩
  | halt =>
    simp only [Call.request, answer, replying, halt_strictly]
    exact ⟨trivial, fun _ => trivial⟩
  | resume => exact ⟨resume_strictly s, fun _ => rfl⟩
  | consumeRedraw =>
    simp only [Call.request, answer, consumeRedraw_strictly]
    exact ⟨trivial, fun _ => trivial⟩
  | reset => exact ⟨reset_strictly s, fun _ => rfl⟩

theorem afterCalls_strictly (s : Supervisor) {calls : List Call} (hc : ∀ c ∈ calls, ¬ c.Batch) :
    s.strictly.afterCalls calls = (s.afterCalls calls).strictly := by
  induction calls generalizing s with
  | nil => rfl
  | cons c rest ih =>
    rw [List.forall_mem_cons] at hc
    show (s.strictly.call c).1.afterCalls rest = _
    rw [(s.call_strictly hc.1).1]
    exact ih _ hc.2

/-! ## Runs -/

/-- How a host gets on with a strict supervisor: it runs it for `n` cycles and, after each unknown word,
again for those that are left, until there are none. -/
inductive Persists : Supervisor → Int → Supervisor × Except Error Unit → Prop
  | returned {s s' : Supervisor} {n : Int} {ran : Nat} (h : s.run n = (s', .ok ran)) :
      Persists s n (s', .ok ())
  | spent {s s' : Supervisor} {n : Int} {pc word : UInt16}
      (h : s.run n = (s', .error (.execution .unknownOpcode pc word)))
      (hn : n ≤ s'.cycles - s.cycles) : Persists s n (s', .ok ())
  | again {s s' : Supervisor} {n : Int} {pc word : UInt16} {r : Supervisor × Except Error Unit}
      (h : s.run n = (s', .error (.execution .unknownOpcode pc word)))
      (hn : s'.cycles - s.cycles < n) (hr : Persists s' (n - (s'.cycles - s.cycles)) r) :
      Persists s n r
  | raised {s s' : Supervisor} {n : Int} {e : Error} (h : s.run n = (s', .error e))
      (he : ∀ pc word, e ≠ .execution .unknownOpcode pc word) : Persists s n (s', .error e)

/-- The same machine, the same counters, and the same error, if there is one. -/
structure SameEnd {α β : Type} (r : Supervisor × Except Error α) (r' : Supervisor × Except Error β) :
    Prop where
  machine : r.1.machine = r'.1.machine
  cycles : r.1.cycles = r'.1.cycles
  faults : r.1.journal.faults = r'.1.journal.faults
  result : r.2.map (fun _ => ()) = r'.2.map fun _ => ()

namespace SameEnd

variable {α β γ : Type} {r : Supervisor × Except Error α} {r' : Supervisor × Except Error β}
  {r'' : Supervisor × Except Error γ}

theorem symm (h : SameEnd r r') : SameEnd r' r :=
  ⟨h.machine.symm, h.cycles.symm, h.faults.symm, h.result.symm⟩

theorem trans (h : SameEnd r r') (h' : SameEnd r' r'') : SameEnd r r'' :=
  ⟨h.machine.trans h'.machine, h.cycles.trans h'.cycles, h.faults.trans h'.faults,
    h.result.trans h'.result⟩

end SameEnd

theorem sameEnd_run (s : Supervisor) (n : Int) : SameEnd (s.run n) (s.runFrom 0 n.toNat) := by
  unfold run
  cases s.runFrom 0 n.toNat with
  | mk s' result => cases result <;> exact ⟨rfl, rfl, rfl, rfl⟩

theorem sameEnd_runFrom (s : Supervisor) (ran n : Nat) :
    SameEnd (s.runFrom ran n) (s.runFrom 0 n) := by
  suffices h : ∀ ran ran', SameEnd (s.runFrom ran n) (s.runFrom ran' n) from h ran 0
  induction n generalizing s with
  | zero => exact fun _ _ => ⟨rfl, rfl, rfl, rfl⟩
  | succ n ih =>
    intro ran ran'
    rw [runFrom_succ, runFrom_succ]
    split
    · exact ⟨rfl, rfl, rfl, rfl⟩
    · cases s.step with
      | mk s' result =>
        cases result with
        | ok word => exact ih s' _ _
        | error e => exact ⟨rfl, rfl, rfl, rfl⟩

/-- A step of a word that is known is the same on both, and it does not complain of an unknown one. -/
theorem step_strictly_known {s : Supervisor} (hs : s.strict = false) (h : ¬ s.machine.StepsUnknown) :
    s.strictly.step = (s.step.1.strictly, s.step.2) ∧
      ∀ pc word, s.step.2 ≠ .error (.execution .unknownOpcode pc word) := by
  refine ⟨Prod.ext s.step_strictly (answer_step_strictly h), fun pc word he => ?_⟩
  obtain ⟨f, hf, -, hw⟩ := (step_error_iff hs _).1 he
  cases hw
  cases hf

/-- The strict loop goes along with the other, or it stops at the first unknown word and the other goes
on from there. -/
theorem runFrom_strictly {s : Supervisor} (hs : s.strict = false) (ran n : Nat) :
    (s.strictly.runFrom ran n = ((s.runFrom ran n).1.strictly, (s.runFrom ran n).2) ∧
      ∀ pc word, (s.runFrom ran n).2 ≠ .error (.execution .unknownOpcode pc word)) ∨
    ∃ (k : Nat) (v : Supervisor) (pc word : UInt16),
      k < n ∧ v.strict = false ∧ v.cycles = s.cycles + (k + 1) ∧
        s.strictly.runFrom ran n = (v.strictly, .error (.execution .unknownOpcode pc word)) ∧
        s.runFrom ran n = v.runFrom (ran + (k + 1)) (n - (k + 1)) := by
  induction n generalizing s ran with
  | zero => exact .inl ⟨rfl, fun pc word => by rintro ⟨⟩⟩
  | succ n ih =>
    rw [runFrom_succ, runFrom_succ]
    by_cases hh : s.isHalted = true
    · rw [if_pos hh, if_pos (show s.strictly.isHalted = true from hh)]
      exact .inl ⟨rfl, fun pc word => by rintro ⟨⟩⟩
    rw [if_neg hh, if_neg (show ¬ s.strictly.isHalted = true from hh)]
    have hstrict := s.strict_step.trans hs
    have hcycles := s.cycles_step
    rw [if_neg fun h => hh (decide_eq_true h)] at hcycles
    by_cases hu : s.machine.StepsUnknown
    · obtain ⟨herror, hok⟩ := answer_step_unknown hs hu
      have hboth : s.strictly.step =
          (s.step.1.strictly, .error (.execution .unknownOpcode s.machine.pc s.machine.fetch)) :=
        Prod.ext s.step_strictly herror
      rw [hboth]
      cases hstep : s.step with
      | mk s' result =>
        rw [hstep] at hcycles hstrict hok
        obtain rfl : result = .ok s.machine.fetch := hok
        exact .inr ⟨0, s', _, _, Nat.succ_pos n, hstrict, hcycles, rfl, rfl⟩
    · obtain ⟨hboth, hknown⟩ := step_strictly_known hs hu
      rw [hboth]
      cases hstep : s.step with
      | mk s' result =>
        rw [hstep] at hcycles hstrict hknown
        cases result with
        | error e =>
          refine .inl ⟨rfl, fun pc word he => hknown pc word ?_⟩
          rw [Except.error.inj he]
        | ok word =>
          rcases ih hstrict (ran + 1) with h | ⟨k, v, pc, word, hk, hv, hc, hleft, hright⟩
          · exact .inl h
          · refine .inr ⟨k + 1, v, pc, word, Nat.succ_lt_succ hk, hv, ?_, hleft, ?_⟩
            · rw [hc, hcycles]
              omega
            · refine hright.trans ?_
              congr 1 <;> omega

/-! ## Running on -/

/-- Where a run meets no unknown word, there is nothing to go on after. -/
theorem persists_run {s : Supervisor} {n : Int}
    (h : ∀ pc word, (s.run n).2 ≠ .error (.execution .unknownOpcode pc word)) :
    (∃ r, s.Persists n r) ∧ ∀ r, s.Persists n r → SameEnd r (s.run n) := by
  refine ⟨?_, fun r hr => ?_⟩
  · cases hrun : s.run n with
    | mk s' result =>
      cases result with
      | ok ran => exact ⟨_, .returned hrun⟩
      | error e =>
        refine ⟨_, .raised hrun fun pc word he => h pc word ?_⟩
        rw [hrun, he]
  · cases hr with
    | returned hrun | raised hrun =>
      rw [hrun]
      exact ⟨rfl, rfl, rfl, rfl⟩
    | spent hrun | again hrun =>
      rw [hrun] at h
      exact absurd rfl (h _ _)

theorem persists_spent {s s' : Supervisor} {n : Int} {pc word : UInt16}
    (h : s.run n = (s', .error (.execution .unknownOpcode pc word)))
    (hn : n ≤ s'.cycles - s.cycles) (r : Supervisor × Except Error Unit) :
    s.Persists n r ↔ r = (s', .ok ()) := by
  refine ⟨fun hr => ?_, fun hr => hr ▸ .spent h hn⟩
  cases hr with
  | returned hrun => cases h.symm.trans hrun
  | spent hrun => cases h.symm.trans hrun; rfl
  | again hrun hn' => cases h.symm.trans hrun; omega
  | raised hrun he => cases h.symm.trans hrun; exact absurd rfl (he _ _)

theorem persists_again {s s' : Supervisor} {n : Int} {pc word : UInt16}
    (h : s.run n = (s', .error (.execution .unknownOpcode pc word)))
    (hn : s'.cycles - s.cycles < n) (r : Supervisor × Except Error Unit) :
    s.Persists n r ↔ s'.Persists (n - (s'.cycles - s.cycles)) r := by
  refine ⟨fun hr => ?_, .again h hn⟩
  cases hr with
  | returned hrun => cases h.symm.trans hrun
  | spent hrun hn' => cases h.symm.trans hrun; omega
  | again hrun hn' hr => cases h.symm.trans hrun; exact hr
  | raised hrun he => cases h.symm.trans hrun; exact absurd rfl (he _ _)

/-- The loop of a run, taken apart behind some of its cycles. -/
theorem sameEnd_rest {s v : Supervisor} {n : Int} {k : Nat}
    (h : s.runFrom 0 n.toNat = v.runFrom (0 + k) (n.toNat - k)) :
    SameEnd (v.run (n - k)) (s.run n) := by
  have hn : (n - k).toNat = n.toNat - k := by omega
  have hv := v.sameEnd_run (n - k)
  rw [hn] at hv
  have hs := s.sameEnd_run n
  rw [h] at hs
  exact hv.trans ((v.sameEnd_runFrom _ _).symm.trans hs.symm)

/-- A strict supervisor that is run again after each unknown word ends up where the other one does, and
raises what the other one raises. -/
theorem persists_strictly {s : Supervisor} (hs : s.strict = false) (n : Int) :
    (∃ r, s.strictly.Persists n r) ∧ ∀ r, s.strictly.Persists n r → SameEnd r (s.run n) := by
  -- by the number of cycles: each attempt that fails uses at least one of them
  generalize hd : n.toNat = d
  induction d using Nat.strongRecOn generalizing s n with
  | ind d ih =>
    subst hd
    rcases runFrom_strictly hs 0 n.toNat with
      ⟨heq, hknown⟩ | ⟨k, v, pc, word, hk, hv, hc, hleft, hright⟩
    · have hsame : SameEnd (s.strictly.run n) (s.run n) := by
        have hstrict := s.strictly.sameEnd_run n
        rw [heq] at hstrict
        have hflag : SameEnd ((s.runFrom 0 n.toNat).1.strictly, (s.runFrom 0 n.toNat).2)
            (s.runFrom 0 n.toNat) := ⟨rfl, rfl, rfl, rfl⟩
        exact (hstrict.trans hflag).trans (s.sameEnd_run n).symm
      obtain ⟨journal, hrun⟩ := s.strictly.run_eq n
      obtain ⟨hexists, hall⟩ := persists_run (s := s.strictly) (n := n) (by
        rw [hrun, heq]
        exact hknown)
      exact ⟨hexists, fun r hr => (hall r hr).trans hsame⟩
    · have hrun : s.strictly.run n = (v.strictly, .error (.execution .unknownOpcode pc word)) := by
        rw [run, hleft]
      have hused : (v.strictly.cycles : Int) - s.strictly.cycles = (k + 1 : Nat) := by
        show (v.cycles : Int) - s.cycles = _
        omega
      have hrest : SameEnd (v.run (n - (k + 1 : Nat))) (s.run n) := sameEnd_rest hright
      by_cases hn : n ≤ (k + 1 : Nat)
      · have hz : (n - (k + 1 : Nat)).toNat = 0 := by omega
        have hv := v.sameEnd_run (n - (k + 1 : Nat))
        rw [hz] at hv
        simp only [persists_spent hrun (hused ▸ hn)]
        refine ⟨⟨_, rfl⟩, ?_⟩
        rintro r rfl
        have hflag : SameEnd (v.strictly, (.ok () : Except Error Unit)) (v.runFrom 0 0) :=
          ⟨rfl, rfl, rfl, rfl⟩
        exact (hflag.trans hv.symm).trans hrest
      · simp only [persists_again hrun (hused ▸ Int.not_le.1 hn), hused]
        obtain ⟨hexists, hall⟩ := ih _ (by omega) hv (n - (k + 1 : Nat)) rfl
        exact ⟨hexists, fun r hr => (hall r hr).trans hrest⟩

/-! ## The two together -/

theorem followed_lenient : Followed fun s _ => s.strict = false where
  cycle {s _} hs := s.strict_step.trans hs
  halt {s _} hs := by
    obtain ⟨journal, mode, he⟩ := s.halt_only
    rw [he]
    exact hs
  resume {s _} hs := by
    obtain ⟨journal, mode, fault, he⟩ := s.resume_only
    rw [he]
    exact hs
  load hs _ _ _ := hs
  host hs _ _ _ _ := hs
  ran hs _ _ := hs
  reset hs := hs

/-- What holds between a supervisor and a strict one beside it.

* They are the same but for the strictness: the machine, the cycles and the whole journal.
* A step of an unknown word is an error on the strict one, with the address and the word of the
  instruction, where the other one answers with the word. Any other call that is no batch has the same
  answer on both.
* The strict one may be run for any number of cycles, again after each unknown word, and ends with the
  machine, the counters and the error of the other one's run. -/
structure Beside (s t : Supervisor) : Prop where
  same : t = s.strictly
  unknown : s.machine.StepsUnknown →
    (t.call .step).2 = .error (.execution .unknownOpcode s.machine.pc s.machine.fetch) ∧
      (s.call .step).2 = .ok (.word s.machine.fetch)
  answer : ∀ c : Call, ¬ c.Batch → ¬ (c = .step ∧ s.machine.StepsUnknown) →
    (t.call c).2 = (s.call c).2
  run : ∀ n, (∃ r, t.Persists n r) ∧ ∀ r, t.Persists n r → SameEnd r (s.run n)

theorem beside_strictly {s : Supervisor} (hs : s.strict = false) : s.Beside s.strictly where
  same := rfl
  unknown hu := by
    obtain ⟨herror, hok⟩ := answer_step_unknown hs hu
    simp only [call, Call.request, Supervisor.answer, replying, herror, hok]
    exact ⟨rfl, rfl⟩
  answer c hc := (s.call_strictly hc).2
  run := persists_strictly hs

/-- Two supervisors that are created alike, but one of them strict, are beside each other after all
calls that are no batches, and neither is created without the other. -/
theorem strict_beside (seed : Value) (journal : Except Error Journal) :
    create seed true journal = (create seed false journal).map strictly ∧
      ∀ s t, create seed false journal = .ok s → create seed true journal = .ok t →
        ∀ calls, (∀ c ∈ calls, ¬ c.Batch) → (s.afterCalls calls).Beside (t.afterCalls calls) := by
  refine ⟨create_strictly seed journal, fun s t hs ht calls hc => ?_⟩
  have hst : t = s.strictly := by
    rw [create_strictly, hs] at ht
    exact (Except.ok.inj ht).symm
  have hstrict : s.strict = false := by
    obtain ⟨j, key, -, rfl⟩ := create_eq hs
    rfl
  rw [hst, afterCalls_strictly s hc]
  exact beside_strictly (followed_lenient.history hstrict calls)

/-- The first word of a machine without a program is unknown. The strict supervisor says so; run for
three cycles, again and again, it ends where the other one does. -/
theorem strict_beside_blank : ∃ s t, create (.integer 0) false (.ok {}) = .ok s ∧
    create (.integer 0) true (.ok {}) = .ok t ∧ s.machine.StepsUnknown ∧
    (t.call .step).2 = .error (.execution .unknownOpcode 0x200 0) ∧
    (s.call .step).2 = .ok (.word 0) ∧ ∃ r, t.Persists 3 r ∧ SameEnd r (s.run 3) := by
  obtain ⟨s, hs⟩ : ∃ s, create (.integer 0) false (.ok {}) = .ok s :=
    ⟨_, create_ok (show 0 < 0x8000000000000000 by decide) false {}⟩
  obtain ⟨hcreate, hbeside⟩ := strict_beside (.integer 0) (.ok {})
  have ht : create (.integer 0) true (.ok {}) = .ok s.strictly := by rw [hcreate, hs]; rfl
  obtain ⟨-, hunknown, -, hrun⟩ := hbeside s _ hs ht [] (List.forall_mem_nil _)
  obtain ⟨key, hm⟩ := machine_create hs
  have hu : s.machine.StepsUnknown := by
    rw [Machine.StepsUnknown, hm, Machine.fetch_initial, ← Instruction.ofFields?_eq_none_iff]
    exact ⟨rfl, rfl⟩
  obtain ⟨herror, hok⟩ := hunknown hu
  obtain ⟨⟨r, hr⟩, hend⟩ := hrun 3
  refine ⟨s, s.strictly, hs, ht, hu, ?_, ?_, r, hr, hend r hr⟩
  · refine herror.trans ?_
    show Except.error (Error.execution _ s.machine.pc s.machine.fetch) = _
    rw [hm, Machine.fetch_initial]
    rfl
  · refine hok.trans ?_
    show Except.ok (Answer.word s.machine.fetch) = _
    rw [hm, Machine.fetch_initial]

end Supervisor

end Chip8
