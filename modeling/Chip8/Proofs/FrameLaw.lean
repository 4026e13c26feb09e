import Chip8.Machine.Flow
import Chip8.Proofs.Footprint
import Chip8.Proofs.Stack

/-! The frame law of the instruction set: which words may change a part of the machine, and where the
program goes on. Every word is taken, the undefined ones too.

* `same_execute`: a part stays as it is, unless the word is in its table;
* `leads_iff`: the program counter behind a word is the one that `Leads` names;
* `frameLaw_execute`: the two together, with the redraw flag and the mode. -/

namespace Chip8

namespace Instruction

/-- The instruction is a skip, and its condition holds. -/
def skips (m : Machine) : Instruction → Bool
  | skipEqualByte x b => m.register x == b
  | skipUnequalByte x b => m.register x != b
  | skipEqual x y => m.register x == m.register y
  | skipUnequal x y => m.register x != m.register y
  | skipPressed x => m.keyDown x
  | skipReleased x => !m.keyDown x
  | _ => false

/-- The program goes on with one of the next two words. -/
def GoesOn : Instruction → Prop
  | ret | jump _ | call _ | jumpOffset _ | awaitKey _ => False
  | _ => True

theorem goesOn_of_skips {m : Machine} {i : Instruction} (h : i.skips m = true) : i.GoesOn := by
  cases i with
  | ret | jump | call | jumpOffset | awaitKey => cases h
  | _ => trivial

theorem goesOn_iff (i : Instruction) : i.GoesOn ↔ i.pattern ∉ Machine.redirections := by
  cases i with
  | ret | jump | call | jumpOffset | awaitKey =>
    exact iff_of_false id (not_not_intro (of_decide_eq_true rfl))
  | operate op x y => cases op <;> exact iff_of_true trivial (of_decide_eq_false rfl)
  | _ => exact iff_of_true trivial (of_decide_eq_false rfl)

end Instruction

namespace Machine

/-! ## The program counter behind an instruction -/

/-- The program counter is as it was, and so is all that decides where a program goes on. -/
def SamePlace (m m' : Machine) : Prop :=
  ∃ rng memory screen delay sound registers index redraw,
    m' = { m with rng, memory, screen, delay, sound, registers, index, redraw }

theorem SamePlace.bumpIndex {m m' : Machine} (h : SamePlace m m') (x : Register) :
    SamePlace m (m'.bumpIndex x) := by
  obtain ⟨_, _, _, _, _, _, _, _, rfl⟩ := h
  exact ⟨_, _, _, _, _, _, _, _, rfl⟩

theorem SamePlace.pc_next {m m' : Machine} (h : SamePlace m m') : m'.next.pc = m.pc + 2 := by
  obtain ⟨_, _, _, _, _, _, _, _, rfl⟩ := h
  rfl

theorem samePlace_storeRegisters (m : Machine) (x : Register) : SamePlace m (m.storeRegisters x) :=
  ⟨_, _, _, _, _, _, _, _, rfl⟩

theorem samePlace_loadRegisters (m : Machine) (x : Register) : SamePlace m (m.loadRegisters x) :=
  ⟨_, _, _, _, _, _, _, _, rfl⟩

theorem pc_perform_of_goesOn (m : Machine) {i : Instruction} (h : i.GoesOn) :
    (m.perform i).pc = m.pc + if i.skips m then 4 else 2 := by
  cases i with
  | ret | jump | call | jumpOffset | awaitKey => exact h.elim
  | skipEqualByte | skipUnequalByte | skipEqual | skipUnequal | skipPressed | skipReleased => rfl
  | store x => exact ((samePlace_storeRegisters m x).bumpIndex x).pc_next
  | load x => exact ((samePlace_loadRegisters m x).bumpIndex x).pc_next
  | _ => exact SamePlace.pc_next ⟨_, _, _, _, _, _, _, _, rfl⟩

variable {m : Machine} {w : UInt16}

theorem execute_of_encode (m : Machine) {i : Instruction} (h : i.encode = w.toNat) :
    m.execute (.ofWord w) = { m with fault := none }.perform i :=
  execute_of_reads m ((Instruction.ofFields?_eq_some_iff w i).2 h)

theorem pc_execute_of_goesOn (m : Machine) {i : Instruction} (h : i.encode = w.toNat)
    (hg : i.GoesOn) : (m.execute (.ofWord w)).pc = m.pc + if i.skips m then 4 else 2 := by
  have hs : i.skips { m with fault := none } = i.skips m := by cases i <;> rfl
  rw [execute_of_encode m h, pc_perform_of_goesOn _ hg, hs]

theorem skips_iff {i : Instruction} (h : i.encode = w.toNat) : m.Skips w ↔ i.skips m = true := by
  constructor
  · intro hs
    cases hs with
    | equalByte x b h' hc => rw [Instruction.encode_inj h h']; exact beq_iff_eq.2 hc
    | unequalByte x b h' hc => rw [Instruction.encode_inj h h']; exact bne_iff_ne.2 hc
    | equal x y h' hc => rw [Instruction.encode_inj h h']; exact beq_iff_eq.2 hc
    | unequal x y h' hc => rw [Instruction.encode_inj h h']; exact bne_iff_ne.2 hc
    | pressed x h' hc => rw [Instruction.encode_inj h h']; exact hc
    | released x h' hc => rw [Instruction.encode_inj h h', Instruction.skips, keyDown, hc]; rfl
  · intro hs
    cases i with
    | skipEqualByte x b => exact .equalByte x b h (beq_iff_eq.1 hs)
    | skipUnequalByte x b => exact .unequalByte x b h (bne_iff_ne.1 hs)
    | skipEqual x y => exact .equal x y h (beq_iff_eq.1 hs)
    | skipUnequal x y => exact .unequal x y h (bne_iff_ne.1 hs)
    | skipPressed x => exact .pressed x h hs
    | skipReleased x => exact .released x h (by simpa [Instruction.skips, keyDown] using hs)
    | _ => cases hs

theorem Skips.spelled (h : m.Skips w) : ∃ i : Instruction, i.encode = w.toNat := by
  cases h <;> exact ⟨_, ‹_›⟩

theorem redirection_iff {i : Instruction} (h : i.encode = w.toNat) :
    Pattern.Among redirections w.toNat ↔ ¬ i.GoesOn := by
  rw [Instruction.among_iff h (by decide), Instruction.goesOn_iff, Decidable.not_not]

/-! ## Where a program goes on -/

theorem pc_execute_of_stopsAt (h : m.StopsAt w) : (m.execute (.ofWord w)).pc = m.pc := by
  rcases h with hp | ⟨hp, hd⟩ | ⟨hp, hd⟩
  · obtain ⟨i, hi, he⟩ := Instruction.spelled_of_matches (by decide) hp
    cases i with
    | awaitKey x => rw [execute_of_encode m hi]; rfl
    | _ => cases he
  · obtain ⟨i, hi, he⟩ := Instruction.spelled_of_matches (by decide) hp
    cases i with
    | call a =>
      rw [execute_of_encode m hi, perform, call, (CallStack.push?_eq_none_iff _ _).2 hd]
      rfl
    | _ => cases he
  · obtain ⟨i, hi, he⟩ := Instruction.spelled_of_matches (by decide) hp
    cases i with
    | ret =>
      rw [execute_of_encode m hi, perform, ret, (CallStack.pop?_eq_none_iff _).2 hd]
      rfl
    | _ => cases he

theorem pc_execute_of_call {a : Address} (h : (Instruction.call a).encode = w.toNat)
    (hd : m.stack.depth < 16) : (m.execute (.ofWord w)).pc = UInt16.ofNat a.val := by
  rw [execute_of_encode m h, perform, call]
  cases hp : m.stack.push? m.pc with
  | none =>
    have := (CallStack.push?_eq_none_iff _ _).1 hp
    omega
  | some stack => rfl

theorem pc_execute_of_ret (h : Instruction.ret.encode = w.toNat) (hd : 0 < m.stack.depth) :
    (m.execute (.ofWord w)).pc = m.stack.top + 2 := by
  rw [execute_of_encode m h, perform, ret]
  cases hp : m.stack.pop? with
  | none =>
    have := (CallStack.pop?_eq_none_iff _).1 hp
    omega
  | some popped =>
    rw [← (CallStack.top_of_pop? hp).2]
    rfl

theorem pc_execute_of_skips (h : m.Skips w) : (m.execute (.ofWord w)).pc = m.pc + 4 := by
  obtain ⟨i, hi⟩ := h.spelled
  have hs := (skips_iff hi).1 h
  rw [pc_execute_of_goesOn m hi (Instruction.goesOn_of_skips hs), if_pos hs]

theorem pc_execute_of_next (hr : ¬ Pattern.Among redirections w.toNat) (hs : ¬ m.Skips w) :
    (m.execute (.ofWord w)).pc = m.pc + 2 := by
  cases hi : Instruction.ofFields? (.ofWord w) with
  | none => rw [execute_of_unread m hi]
  | some i =>
    have h := (Instruction.ofFields?_eq_some_iff w i).1 hi
    have hg : i.GoesOn := Classical.not_not.1 fun hg => hr ((redirection_iff h).2 hg)
    rw [skips_iff h] at hs
    rw [pc_execute_of_goesOn m h hg, if_neg hs]

theorem Leads.pc_execute {pc : UInt16} (h : m.Leads w pc) : (m.execute (.ofWord w)).pc = pc := by
  cases h with
  | jump a h => rw [execute_of_encode m h]; rfl
  | jumpOffset a h => rw [execute_of_encode m h]; rfl
  | call a h hd => exact pc_execute_of_call h hd
  | ret h hd => exact pc_execute_of_ret h hd
  | stop h => exact pc_execute_of_stopsAt h
  | skip h => exact pc_execute_of_skips h
  | next hr hs => exact pc_execute_of_next hr hs

/-- One of the cases holds of every word: the words that redirect are told apart by their instruction,
and a call or a return is a stop where the stack forbids it. -/
theorem exists_leads (m : Machine) (w : UInt16) : ∃ pc, m.Leads w pc := by
  by_cases hs : m.Skips w
  · exact ⟨_, .skip hs⟩
  by_cases hr : Pattern.Among redirections w.toNat
  · obtain ⟨p, hp, hm⟩ := hr
    obtain ⟨i, h, rfl⟩ := Instruction.spelled_of_matches ((by decide : redirections ⊆ _) hp) hm
    cases i with
    | jump a => exact ⟨_, .jump a h⟩
    | jumpOffset a => exact ⟨_, .jumpOffset a h⟩
    | awaitKey x => exact ⟨_, .stop (.inl hm)⟩
    | call a =>
      by_cases hd : m.stack.depth < 16
      · exact ⟨_, .call a h hd⟩
      · have hle := m.stack.depth_le
        exact ⟨_, .stop (.inr (.inl ⟨hm, by omega⟩))⟩
    | ret =>
      by_cases hd : 0 < m.stack.depth
      · exact ⟨_, .ret h hd⟩
      · exact ⟨_, .stop (.inr (.inr ⟨hm, by omega⟩))⟩
    | operate op x y => cases op <;> exact absurd hp (of_decide_eq_false rfl)
    | _ => exact absurd hp (of_decide_eq_false rfl)
  · exact ⟨_, .next hr hs⟩

theorem leads_iff (m : Machine) (w pc : UInt16) :
    m.Leads w pc ↔ (m.execute (.ofWord w)).pc = pc := by
  constructor
  · exact Leads.pc_execute
  · rintro rfl
    obtain ⟨pc, h⟩ := m.exists_leads w
    rw [h.pc_execute]
    exact h

/-! ## The law -/

theorem same_execute (m : Machine) (part : Part) (h : ¬ Pattern.Among part.writers w.toNat) :
    part.Same m (m.execute (.ofWord w)) := by
  have hfault : ∀ m' : Machine, part.Same { m with fault := none } m' → part.Same m m' := by
    intro m' hs
    cases part <;> exact hs
  cases hi : Instruction.ofFields? (.ofWord w) with
  | none =>
    rw [execute_of_unread m hi]
    cases part with
    | wait => exact ⟨rfl, rfl⟩
    | _ => rfl
  | some i =>
    rw [execute_of_reads m hi]
    refine hfault _ (Part.same_perform fun hw => h ?_)
    rw [← (Instruction.ofFields?_eq_some_iff w i).1 hi]
    exact Part.among_of_writes hw

theorem redraw_execute (m : Machine) (h : Pattern.Among Part.screen.writers w.toNat) :
    (m.execute (.ofWord w)).redraw = true := by
  obtain ⟨p, hp, hm⟩ := h
  obtain ⟨i, hi, rfl⟩ :=
    Instruction.spelled_of_matches ((by decide : Part.screen.writers ⊆ _) hp) hm
  rw [execute_of_encode m hi]
  cases i with
  | clear | draw => rfl
  | operate op x y => cases op <;> exact absurd hp (of_decide_eq_false rfl)
  | _ => exact absurd hp (of_decide_eq_false rfl)

theorem mode_perform_plain (m : Machine) {i : Instruction} (h : i.Plain) :
    (perform { m with fault := none } i).mode = m.mode :=
  (perform_plain _ h).mode

theorem mode_execute (m : Machine) (h : ¬ m.StopsAt w) :
    (m.execute (.ofWord w)).mode = m.mode := by
  cases hi : Instruction.ofFields? (.ofWord w) with
  | none => rw [execute_of_unread m hi]
  | some i =>
    have hw := (Instruction.ofFields?_eq_some_iff w i).1 hi
    have hm : i.pattern.Matches w.toNat := hw ▸ i.pattern_matches
    rw [execute_of_reads m hi]
    cases i with
    | awaitKey x => exact absurd (.inl hm) h
    | call a =>
      rw [perform, call]
      cases hp : m.stack.push? m.pc with
      | none => exact absurd (.inr (.inl ⟨hm, (CallStack.push?_eq_none_iff _ _).1 hp⟩)) h
      | some stack => rfl
    | ret =>
      rw [perform, ret]
      cases hp : m.stack.pop? with
      | none => exact absurd (.inr (.inr ⟨hm, (CallStack.pop?_eq_none_iff _).1 hp⟩)) h
      | some popped => rfl
    | _ => rw [mode_perform_plain]; trivial

theorem pc_execute_eq_add_four_iff {i : Instruction} (h : i.encode = w.toNat) (hg : i.GoesOn) :
    (m.execute (.ofWord w)).pc = m.pc + 4 ↔ i.skips m = true := by
  rw [pc_execute_of_goesOn m h hg]
  cases i.skips m with
  | true => exact iff_of_true rfl rfl
  | false => exact iff_of_false (by simp) Bool.false_ne_true

theorem skips_of_opposed {w' : UInt16} (h : Opposed w w') (m : Machine) :
    ∃ i j : Instruction, (i.encode = w.toNat ∧ i.GoesOn) ∧ (j.encode = w'.toNat ∧ j.GoesOn) ∧
      j.skips m = !i.skips m := by
  cases h with
  | byte x b h h' => exact ⟨_, _, ⟨h, trivial⟩, ⟨h', trivial⟩, rfl⟩
  | registers x y h h' => exact ⟨_, _, ⟨h, trivial⟩, ⟨h', trivial⟩, rfl⟩
  | key x h h' => exact ⟨_, _, ⟨h, trivial⟩, ⟨h', trivial⟩, rfl⟩

theorem opposed_execute {w' : UInt16} (h : Opposed w w') :
    (m.execute (.ofWord w')).pc = m.pc + 4 ↔ (m.execute (.ofWord w)).pc ≠ m.pc + 4 := by
  obtain ⟨i, j, ⟨hi, hgi⟩, ⟨hj, hgj⟩, hs⟩ := skips_of_opposed h m
  rw [ne_eq, pc_execute_eq_add_four_iff hi hgi, pc_execute_eq_add_four_iff hj hgj, hs]
  simp

/-- What executing a word changes on a machine, and what it leaves. -/
structure FrameLaw (m : Machine) (w : UInt16) : Prop where
  same : ∀ part : Part, ¬ Pattern.Among part.writers w.toNat → part.Same m (m.execute (.ofWord w))
  redraw : Pattern.Among Part.screen.writers w.toNat → (m.execute (.ofWord w)).redraw = true
  mode : ¬ m.StopsAt w → (m.execute (.ofWord w)).mode = m.mode
  pc : ∀ pc, m.Leads w pc ↔ (m.execute (.ofWord w)).pc = pc
  opposed : ∀ w', Opposed w w' →
    ((m.execute (.ofWord w')).pc = m.pc + 4 ↔ (m.execute (.ofWord w)).pc ≠ m.pc + 4)

theorem frameLaw_execute (m : Machine) (w : UInt16) : m.FrameLaw w where
  same part h := m.same_execute part h
  redraw h := m.redraw_execute h
  mode h := m.mode_execute h
  pc := m.leads_iff w
  opposed _ h := opposed_execute h

end Machine

end Chip8
