import Chip8.Proofs.Events
import Chip8.Proofs.Invariant

/-! Calls and their returns. While a call has not returned, the stack holds everything it held when the
call was made: a push writes above it, and a pop that would reach below it is the return. So the first
return to the depth of the call gives back the stack of the call and goes on behind it.

* `extends_or_leaves`: what one cycle does to a stack that extends another;
* `leaves_of_extends`: the events up to the return, seen from behind the call;
* `return_of_call`: the same, seen from the call. -/

namespace Chip8

namespace Machine

/-- The cycle from `m` to `m'` is a return that takes the last slot of `base` away. -/
structure Leaves (base : CallStack) (m m' : Machine) : Prop where
  mode : m.mode = .running
  word : m.fetch = 0x00EE
  depth : m'.stack.depth + 1 = base.depth
  slots : ∀ i (hi : i < 16), i < m'.stack.depth → m'.stack.slots[i] = base.slots[i]
  pc : ∀ hi : m'.stack.depth < 16, m'.pc = base.slots[m'.stack.depth] + 2

theorem leaves_of_pop {base stack : CallStack} {m : Machine} {address : UInt16}
    (h : base.Extends m.stack) (hr : m.mode = .running) (hi : m.current? = some .ret)
    (hp : m.stack.pop? = some (address, stack)) (hd : stack.depth < base.depth) :
    Leaves base m { m with fault := none, stack, pc := address + 2 } := by
  obtain ⟨hdepth, ha, -⟩ := CallStack.pop?_some hp
  have hle := h.depth
  constructor
  · exact hr
  · exact (Instruction.reads_ret_iff _).1 hi
  · show stack.depth + 1 = base.depth
    omega
  · intro i hi hlt
    exact h.slots_pop? hp hi (by simp only at hlt; omega) hlt
  · intro hlt
    show address + 2 = _
    rw [ha hlt, h.slots _ hlt hd]

theorem extends_or_leaves {base : CallStack} {m : Machine} (h : base.Extends m.stack) :
    base.Extends m.step.stack ∨ Leaves base m m.step := by
  have ho := step_outcome m
  generalize m.step = m' at ho ⊢
  cases ho with
  | idle | waiting | woken | unknown | overflowed | underflowed | awaiting => exact .inl h
  | plain hr i hi hp m' hc =>
    left
    rw [hc.stack]
    exact h
  | called hr a hi stack hp => exact .inl (h.push? hp)
  | returned hr hi address stack hp =>
    by_cases hd : stack.depth < base.depth
    · exact .inr (leaves_of_pop h hr hi hp hd)
    · left
      refine ⟨Nat.le_of_not_lt hd, ?_⟩
      intro i hi hlt
      exact h.slots_pop? hp hi hlt (Nat.lt_of_lt_of_le hlt (Nat.le_of_not_lt hd))

end Machine

namespace Supervisor

def depthAfter (s : Supervisor) (rs : List Request) : Nat :=
  (s.afterAll rs).machine.stack.depth

/-- The depth of the stack is again what it was, after it was another one. -/
def Returned (s : Supervisor) (rs : List Request) : Prop :=
  s.depthAfter rs = s.machine.stack.depth ∧ ∃ p, p <+: rs ∧ s.depthAfter p ≠ s.machine.stack.depth

/-- At the end of the events, and not before, the depth has come back. -/
def FirstReturn (s : Supervisor) (rs : List Request) : Prop :=
  s.Returned rs ∧ ∀ p, p <+: rs → s.Returned p → p = rs

/-- The last event is a step that executes `00EE`, and it leads back to the stack of `s` and to the
instruction behind the one that `s` is on. -/
structure ComesBack (s : Supervisor) (rs : List Request) : Prop where
  last : ∃ rest, rs = rest ++ [.step] ∧ (s.afterAll rest).machine.mode = .running ∧
    (s.afterAll rest).machine.fetch = 0x00EE
  stack : (s.afterAll rs).machine.stack = s.machine.stack
  pc : (s.afterAll rs).machine.pc.toNat = s.machine.pc.toNat % 0x1000 + 2
  fetch : (s.afterAll rs).machine.fetch =
    UInt16.ofNat (256 * ((s.afterAll rs).machine.memory.read (s.machine.pc.toNat + 2)).toNat +
      ((s.afterAll rs).machine.memory.read (s.machine.pc.toNat + 3)).toNat)

/-- Events that first take the last slot of `base` away do so with their last step. -/
theorem leaves_of_extends {s : Supervisor} {base : CallStack} (h : base.Extends s.machine.stack)
    {rs : List Request} (he : ∀ r ∈ rs, r.IsEvent) (hback : s.depthAfter rs + 1 = base.depth)
    (hfirst : ∀ p, p <+: rs → s.depthAfter p + 1 = base.depth → p = rs) :
    ∃ rest, rs = rest ++ [.step] ∧
      Machine.Leaves base (s.afterAll rest).machine (s.afterAll rs).machine := by
  induction rs generalizing s with
  | nil =>
    have hle := h.depth
    rw [depthAfter, afterAll, List.foldl_nil] at hback
    omega
  | cons r rest ih =>
    rw [List.forall_mem_cons] at he
    have hlater (h' : base.Extends (s.answer r).1.machine.stack) :
        ∃ rest', r :: rest = rest' ++ [.step] ∧
          Machine.Leaves base (s.afterAll rest').machine (s.afterAll (r :: rest)).machine := by
      have hf : ∀ p, p <+: rest → (s.answer r).1.depthAfter p + 1 = base.depth → p = rest := by
        intro p hp hd
        exact (List.cons.inj (hfirst (r :: p) (List.cons_prefix_cons.2 ⟨rfl, hp⟩) hd)).2
      obtain ⟨rest', hr, hl⟩ := ih h' he.2 hback hf
      exact ⟨r :: rest', by rw [hr, List.cons_append], hl⟩
    rcases s.machine_event he.1 with ⟨rfl, hm⟩ | ⟨-, delay, sound, keys, hm⟩
    · rcases Machine.extends_or_leaves h with hx | hx
      · exact hlater (by rw [hm]; exact hx)
      · rw [← hm] at hx
        have hone : [Request.step] = .step :: rest :=
          hfirst [.step] (List.cons_prefix_cons.2 ⟨rfl, List.nil_prefix⟩) hx.depth
        obtain rfl : [] = rest := (List.cons.inj hone).2
        exact ⟨[], rfl, hx⟩
    · exact hlater (by rw [hm]; exact h)

theorem returned_cons_iff {s : Supervisor} {r : Request}
    (hd : (s.answer r).1.machine.stack.depth = s.machine.stack.depth) (rs : List Request) :
    s.Returned (r :: rs) ↔ (s.answer r).1.Returned rs := by
  unfold Returned
  rw [hd]
  apply and_congr Iff.rfl
  constructor
  · rintro ⟨p, hp, hne⟩
    rcases List.prefix_cons_iff.1 hp with rfl | ⟨q, rfl, hq⟩
    · exact absurd rfl hne
    · exact ⟨q, hq, hne⟩
  · rintro ⟨p, hp, hne⟩
    exact ⟨r :: p, List.cons_prefix_cons.2 ⟨rfl, hp⟩, hne⟩

theorem FirstReturn.tail {s : Supervisor} {r : Request} {rest : List Request}
    (h : s.FirstReturn (r :: rest))
    (hd : (s.answer r).1.machine.stack.depth = s.machine.stack.depth) :
    (s.answer r).1.FirstReturn rest := by
  refine ⟨(returned_cons_iff hd rest).1 h.1, ?_⟩
  intro p hp hr
  have hc := h.2 (r :: p) (List.cons_prefix_cons.2 ⟨rfl, hp⟩) ((returned_cons_iff hd p).2 hr)
  exact (List.cons.inj hc).2

theorem leaves_of_call {s : Supervisor} (hr : s.machine.mode = .running) {a : Address}
    (hc : s.machine.current? = some (.call a)) {pushed : CallStack}
    (hp : s.machine.stack.push? s.machine.pc = some pushed) {rs : List Request}
    (he : ∀ r ∈ rs, r.IsEvent) (h : s.FirstReturn rs) :
    ∃ rest, rs = rest ++ [.step] ∧
      Machine.Leaves pushed (s.afterAll rest).machine (s.afterAll rs).machine := by
  induction rs generalizing s with
  | nil =>
    obtain ⟨p, hpre, hne⟩ := h.1.2
    rw [List.prefix_nil.1 hpre] at hne
    exact absurd rfl hne
  | cons r rest ih =>
    rw [List.forall_mem_cons] at he
    rcases s.machine_event he.1 with ⟨rfl, hm⟩ | ⟨-, delay, sound, keys, hm⟩
    · have hd := (CallStack.push?_some hp).1
      have hs : (s.answer .step).1.machine.stack = pushed := by
        rw [hm, Machine.step_of_call hr hc hp]
      have hback : (s.answer .step).1.depthAfter rest + 1 = pushed.depth := by
        rw [hd, ← h.1.1]
        rfl
      have hfirst : ∀ p, p <+: rest → (s.answer .step).1.depthAfter p + 1 = pushed.depth →
          p = rest := by
        intro p hpre hdp
        have hleft : s.depthAfter [.step] ≠ s.machine.stack.depth := by
          show (s.answer .step).1.machine.stack.depth ≠ _
          rw [hs]
          omega
        have hret : s.Returned (.step :: p) :=
          ⟨Nat.succ.inj (hdp.trans hd), [.step], ⟨p, rfl⟩, hleft⟩
        exact (List.cons.inj (h.2 _ (List.cons_prefix_cons.2 ⟨rfl, hpre⟩) hret)).2
      obtain ⟨rest', hrest, hl⟩ :=
        leaves_of_extends (by rw [hs]; exact CallStack.extends_refl _) he.2 hback hfirst
      exact ⟨.step :: rest', by rw [hrest, List.cons_append], hl⟩
    · have hd : (s.answer r).1.machine.stack.depth = s.machine.stack.depth := by rw [hm]
      have hf : (s.answer r).1.machine.fetch = s.machine.fetch :=
        Machine.fetch_congr (by rw [hm]) (by rw [hm])
      have hc' : (s.answer r).1.machine.current? = some (.call a) := by
        rw [Machine.current?, hf]
        exact hc
      obtain ⟨rest', hrest, hl⟩ :=
        ih (by rw [hm]; exact hr) hc' (by rw [hm]; exact hp) he.2 (h.tail hd)
      exact ⟨r :: rest', by rw [hrest, List.cons_append], hl⟩

/-- A return that leads back to the depth of a call leads back to its stack and behind it. -/
theorem comesBack_of_leaves {s : Supervisor} (hs : s.machine.stack.Tidy) {pushed : CallStack}
    (hp : s.machine.stack.push? s.machine.pc = some pushed) {rs rest : List Request}
    (hrs : rs = rest ++ [.step]) (ht : (s.afterAll rs).machine.stack.Tidy)
    (hl : Machine.Leaves pushed (s.afterAll rest).machine (s.afterAll rs).machine) :
    s.ComesBack rs := by
  obtain ⟨hd, hslots⟩ := CallStack.push?_some hp
  have hdepth : (s.afterAll rs).machine.stack.depth = s.machine.stack.depth :=
    Nat.succ.inj (hl.depth.trans hd)
  have hlt : (s.afterAll rs).machine.stack.depth < 16 := by
    have hle := pushed.depth_le
    omega
  have hpc : (s.afterAll rs).machine.pc.toNat = s.machine.pc.toNat % 0x1000 + 2 := by
    rw [hl.pc hlt, hslots _ hlt, if_pos hdepth.symm, UInt16.toNat_add, toNat_low]
    simp only [UInt16.reduceToNat]
    omega
  constructor
  · exact ⟨rest, hrs, hl.mode, hl.word⟩
  · apply ht.eq hs hdepth
    intro i hi hlt
    rw [hl.slots i hi hlt, hslots i hi, if_neg (by omega)]
  · exact hpc
  · apply Machine.fetch_eq
    rw [hpc]
    omega

theorem return_of_call {s : Supervisor} (hs : s.Reachable) (hr : s.machine.mode = .running)
    (hc : s.machine.fetch.toNat / 0x1000 = 0x2) (hd : s.machine.stack.depth < 16)
    {rs : List Request} (he : ∀ r ∈ rs, r.IsEvent) (h : s.FirstReturn rs) : s.ComesBack rs := by
  have hsound := Machine.kept_sound.reachable hs
  obtain ⟨a, ha⟩ := (Instruction.reads_call_iff _).2 hc
  cases hp : s.machine.stack.push? s.machine.pc with
  | none =>
    have hfull := (CallStack.push?_eq_none_iff _ _).1 hp
    omega
  | some pushed =>
    obtain ⟨rest, hrs, hl⟩ := leaves_of_call hr ha hp he h
    exact comesBack_of_leaves hsound.stack hp hrs (Machine.kept_sound.afterAll hsound rs).stack hl

/-! ## A call of a subroutine that returns at once -/

theorem firstReturn_of_depths {s : Supervisor} (h₁ : s.depthAfter [.step] ≠ s.machine.stack.depth)
    (h₂ : s.depthAfter [.step, .tick] ≠ s.machine.stack.depth)
    (h₃ : s.depthAfter [.step, .tick, .step] = s.machine.stack.depth) :
    s.FirstReturn [.step, .tick, .step] := by
  refine ⟨⟨h₃, [.step], ⟨_, rfl⟩, h₁⟩, ?_⟩
  rintro p hp ⟨hback, q, hq, hne⟩
  rcases List.prefix_cons_iff.1 hp with rfl | ⟨p₁, rfl, hp₁⟩
  · rw [List.prefix_nil.1 hq] at hne
    exact absurd rfl hne
  rcases List.prefix_cons_iff.1 hp₁ with rfl | ⟨p₂, rfl, hp₂⟩
  · exact absurd hback h₁
  rcases List.prefix_cons_iff.1 hp₂ with rfl | ⟨p₃, rfl, hp₃⟩
  · exact absurd hback h₂
  rw [List.prefix_nil.1 hp₃]

theorem firstReturn_of_call_ret {s : Supervisor} {a : Address} (hr : s.machine.mode = .running)
    (hc : s.machine.current? = some (.call a)) (hd : s.machine.stack.depth < 16)
    (hret : ∀ m : Machine, m.memory = s.machine.memory → m.pc = UInt16.ofNat a →
      m.current? = some .ret) :
    s.FirstReturn [.step, .tick, .step] := by
  cases hpush : s.machine.stack.push? s.machine.pc with
  | none =>
    have hfull := (CallStack.push?_eq_none_iff _ _).1 hpush
    omega
  | some pushed =>
    have hpushed := (CallStack.push?_some hpush).1
    have h1 : (s.afterAll [.step]).machine =
        { s.machine with fault := none, stack := pushed, pc := UInt16.ofNat a } :=
      (machine_step s).trans (Machine.step_of_call hr hc hpush)
    have h2 : (s.afterAll [.step, .tick]).machine =
        { s.machine with fault := none, stack := pushed, pc := UInt16.ofNat a }.tick := by
      rw [← h1]
      rfl
    cases hpop : pushed.pop? with
    | none =>
      have hempty := (CallStack.pop?_eq_none_iff _).1 hpop
      omega
    | some popped =>
      have hpopped := (CallStack.pop?_some hpop).1
      have h3 : (s.afterAll [.step, .tick, .step]).machine.stack = popped.2 := by
        have hback := Machine.step_of_ret (m := (s.afterAll [.step, .tick]).machine)
          (by rw [h2]; exact hr) (hret _ (by rw [h2]; rfl) (by rw [h2]; rfl)) (by rw [h2]; exact hpop)
        rw [show [Request.step, .tick, .step] = [.step, .tick] ++ [.step] from rfl, afterAll_step,
          hback]
      apply firstReturn_of_depths
      · rw [depthAfter, h1]
        show pushed.depth ≠ _
        omega
      · rw [depthAfter, h2]
        show pushed.depth ≠ _
        omega
      · rw [depthAfter, h3]
        omega

/-- `CALL 204` over a jump to itself, and a `RET`. -/
def subroutine : List UInt8 :=
  [0x22, 0x04, 0x12, 0x02, 0x00, 0xEE]

/-- A fresh machine on its call. -/
def calling : Supervisor :=
  (fresh 0 false).afterCalls [.load (.bytes subroutine) none]

theorem machine_calling :
    calling.machine = (Machine.initial (.ofSeed 0)).loaded subroutine := by
  have hi : (ProgramData.bytes subroutine).image = .ok subroutine := rfl
  have hl : subroutine.length ≤ Machine.maxProgramSize := by decide
  have hm := (load_of_le (fresh 0 false) hi hl none).1
  rw [machine_fresh] at hm
  exact hm

theorem fetch_calling {m : Machine} {k : Nat} (hm : m.memory = calling.machine.memory)
    (hp : m.pc.toNat = Machine.programStart + k) (hk : k + 1 < subroutine.length) :
    m.fetch = UInt16.ofNat (256 * subroutine[k].toNat + subroutine[k + 1].toNat) := by
  rw [machine_calling, Machine.memory_loaded] at hm
  exact Machine.fetch_withImage hm hp hk (by decide)

theorem calling_control :
    calling.machine.mode = .running ∧ calling.machine.stack.depth = 0 ∧
      calling.machine.fetch = 0x2204 := by
  refine ⟨?_, ?_, fetch_calling (k := 0) rfl ?_ (by decide)⟩
  · rw [machine_calling, Machine.mode_loaded]
    rfl
  · rw [machine_calling, Machine.loaded]
    rfl
  · rw [machine_calling, Machine.pc_loaded]
    rfl

theorem firstReturn_calling : calling.FirstReturn [.step, .tick, .step] := by
  obtain ⟨hr, hd, hf⟩ := calling_control
  have hc : calling.machine.current? = some (.call 0x204) := by
    rw [Machine.current?, hf, Instruction.ofFields?_eq_some_iff]
    rfl
  apply firstReturn_of_call_ret hr hc (by omega)
  intro m hm hp
  rw [Machine.current?, fetch_calling (k := 4) hm (by rw [hp]; rfl) (by decide),
    Instruction.reads_ret_iff]
  rfl

theorem return_of_calling :
    calling.Reachable ∧ calling.machine.mode = .running ∧
      calling.machine.fetch.toNat / 0x1000 = 0x2 ∧ calling.machine.stack.depth < 16 ∧
      (∀ r ∈ [Request.step, .tick, .step], r.IsEvent) ∧ calling.FirstReturn [.step, .tick, .step] ∧
      calling.ComesBack [.step, .tick, .step] := by
  have hs : calling.Reachable := (reachable_fresh (by decide) false).afterCalls _
  obtain ⟨hr, hd, hf⟩ := calling_control
  have hc : calling.machine.fetch.toNat / 0x1000 = 0x2 := by rw [hf]; rfl
  have hlt : calling.machine.stack.depth < 16 := by omega
  have he : ∀ r ∈ [Request.step, .tick, .step], r.IsEvent := by simp [Request.IsEvent]
  have hfirst := firstReturn_calling
  exact ⟨hs, hr, hc, hlt, he, hfirst, return_of_call hs hr hc hlt he hfirst⟩

end Supervisor

end Chip8
