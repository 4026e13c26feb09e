import Chip8.Instruction.Pattern
import Chip8.Proofs.Cycle

/-! Which words are instructions, and what becomes of the others. Reading goes by family and then by a
selector of the family's own, the table of patterns by nibbles; the two recognise the same words. So what
an execution records can be read off the word and the depth of the stack.

* `ofFields?_eq_none_iff`: the words that are not read are those that match no pattern;
* `execution_cases`: what an execution leaves when it faults, and that it records nothing otherwise;
* `execute_verdict`: each fault, by its word. -/

namespace Chip8

namespace Instruction

theorem ofSystem?_eq_none_iff (f : Fields) :
    ofSystem? f = none ↔ f.nnn.val ≠ 0x0E0 ∧ f.nnn.val ≠ 0x0EE := by
  unfold ofSystem?
  split
  · simp_all
  · split <;> simp_all

theorem ofKey?_eq_none_iff (f : Fields) :
    ofKey? f = none ↔ f.nn.toNat ≠ 0x9E ∧ f.nn.toNat ≠ 0xA1 := by
  unfold ofKey?
  simp only [← UInt8.toNat_inj]
  split
  · simp_all
  · split <;> simp_all

theorem ofSelector?_eq_none_iff (n : Nat) :
    Operation.ofSelector? n = none ↔ ∀ op ∈ Operation.all, n ≠ op.selector := by
  simp only [Operation.ofSelector?, List.find?_eq_none, decide_eq_true_eq, ne_comm]

theorem ofMiscellany?_eq_none_iff (f : Fields) :
    ofMiscellany? f = none ↔ ∀ entry ∈ miscellany, f.nn.toNat ≠ entry.1.toNat := by
  simp only [ofMiscellany?, Option.map_eq_none_iff, List.find?_eq_none, decide_eq_true_eq,
    ← UInt8.toNat_inj, ne_comm]

/-- Only the families 0, 5, 8, 9, E and F have words that are not read. -/
theorem ofFields?_eq_none_iff (w : UInt16) :
    ofFields? (Fields.ofWord w) = none ↔ Pattern.Unknown w.toNat := by
  have hw := w.toNat_lt
  have hf := Fields.val_family w.toNat w.toNat
  have hn := Fields.val_n w.toNat w.toNat
  have ha := Fields.val_nnn w.toNat w.toNat
  have hb := Fields.toNat_nn w.toNat w.toNat
  rw [Fields.ofWord]
  generalize Fields.ofNat w.toNat w.toNat = f at *
  have hd : w.toNat / 0x1000 = f.family.val := by omega
  have hbyte : ∀ c, c < 256 →
      (f.nn.toNat = c ↔ w.toNat / 0x10 % 16 = c / 16 ∧ w.toNat % 16 = c % 16) := by
    intro c hc
    omega
  have haddress : ∀ c, c < 256 →
      (f.nnn.val = c ↔
        w.toNat / 0x100 % 16 = 0 ∧ w.toNat / 0x10 % 16 = c / 16 ∧ w.toNat % 16 = c % 16) := by
    intro c hc
    omega
  simp only [Pattern.Unknown, Pattern.all, Pattern.Matches, Pattern.Fits, List.forall_mem_cons,
    List.not_mem_nil, Option.mem_def, Option.some.injEq, reduceCtorEq, forall_eq', hd]
  have hlt := f.family.isLt
  unfold ofFields?
  split
  case h_1 h => simp [h, ofSystem?_eq_none_iff, haddress]
  case h_6 h | h_10 h => simp [h, hn]
  case h_9 h => simp [h, hn, ofSelector?_eq_none_iff, Operation.all, Operation.selector]
  case h_15 h => simp [h, ofKey?_eq_none_iff, hbyte]
  case h_16 =>
    simp only [imp_false] at *
    have h : f.family.val = 0xF := by omega
    simp [h, ofMiscellany?_eq_none_iff, miscellany, hbyte]
  all_goals rename_i h; simp [h]

theorem not_unknown_of_reads {w : UInt16} {i : Instruction}
    (h : ofFields? (Fields.ofWord w) = some i) : ¬ Pattern.Unknown w.toNat := by
  rw [← ofFields?_eq_none_iff, h]
  rintro ⟨⟩

end Instruction

namespace Machine

theorem execute_of_reads (m : Machine) {f : Fields} {i : Instruction}
    (h : Instruction.ofFields? f = some i) : m.execute f = { m with fault := none }.perform i := by
  simp only [execute, h]

theorem execute_of_unread (m : Machine) {f : Fields} (h : Instruction.ofFields? f = none) :
    m.execute f = { m with fault := some .unknownOpcode, pc := m.pc + 2 } := by
  simp only [execute, h]
  rfl

/-- What the execution of a word can leave behind. -/
inductive Execution (m : Machine) (w : UInt16) : Machine → Prop
  | unknown (h : Pattern.Unknown w.toNat) :
      Execution m w { m with fault := some .unknownOpcode, pc := m.pc + 2 }
  | overflowed (h : w.toNat / 0x1000 = 0x2) (hd : m.stack.depth = 16) :
      Execution m w { m with fault := some .stackOverflow, mode := .halted }
  | underflowed (h : w = 0x00EE) (hd : m.stack.depth = 0) :
      Execution m w { m with fault := some .stackUnderflow, mode := .halted }
  | done (h : ¬ Pattern.Unknown w.toNat) (ho : ¬ (w.toNat / 0x1000 = 0x2 ∧ m.stack.depth = 16))
      (hu : ¬ (w = 0x00EE ∧ m.stack.depth = 0)) (m' : Machine) (hf : m'.fault = none) :
      Execution m w m'

section Cases

variable (m : Machine) {w : UInt16}

theorem execution_call {a : Address} (hi : Instruction.ofFields? (.ofWord w) = some (.call a)) :
    Execution m w (m.execute (.ofWord w)) := by
  have hw : w.toNat / 0x1000 = 0x2 := (Instruction.reads_call_iff w).1 ⟨a, hi⟩
  rw [execute_of_reads m hi, perform, call]
  cases hp : m.stack.push? m.pc with
  | none => exact .overflowed hw ((CallStack.push?_eq_none_iff _ _).1 hp)
  | some stack =>
    refine .done (Instruction.not_unknown_of_reads hi) ?_ ?_ _ rfl
    · rintro ⟨-, hd⟩
      rw [(CallStack.push?_eq_none_iff _ _).2 hd] at hp
      cases hp
    · rintro ⟨rfl, -⟩
      cases hw

theorem execution_ret (hi : Instruction.ofFields? (.ofWord w) = some .ret) :
    Execution m w (m.execute (.ofWord w)) := by
  have hw : w = 0x00EE := (Instruction.reads_ret_iff w).1 hi
  rw [execute_of_reads m hi, perform, ret]
  cases hp : m.stack.pop? with
  | none => exact .underflowed hw ((CallStack.pop?_eq_none_iff _).1 hp)
  | some popped =>
    refine .done (Instruction.not_unknown_of_reads hi) ?_ ?_ _ rfl
    · rintro ⟨hc, -⟩
      rw [hw] at hc
      cases hc
    · rintro ⟨-, hd⟩
      rw [(CallStack.pop?_eq_none_iff _).2 hd] at hp
      cases hp

theorem execution_other {i : Instruction} (hi : Instruction.ofFields? (.ofWord w) = some i)
    (hc : ∀ a, i ≠ .call a) (hr : i ≠ .ret)
    (hf : (perform { m with fault := none } i).fault = none) :
    Execution m w (m.execute (.ofWord w)) := by
  refine .done (Instruction.not_unknown_of_reads hi) ?_ ?_ _ ?_
  · rintro ⟨hw, -⟩
    obtain ⟨a, ha⟩ := (Instruction.reads_call_iff w).2 hw
    exact hc a (Option.some.inj (hi.symm.trans ha))
  · rintro ⟨hw, -⟩
    exact hr (Option.some.inj (hi.symm.trans ((Instruction.reads_ret_iff w).2 hw)))
  · rw [execute_of_reads m hi]
    exact hf

end Cases

theorem fault_perform_plain (m : Machine) {i : Instruction} (h : i.Plain) :
    (perform { m with fault := none } i).fault = none :=
  (perform_plain _ h).fault

theorem execution_cases (m : Machine) (w : UInt16) : Execution m w (m.execute (.ofWord w)) := by
  cases hi : Instruction.ofFields? (.ofWord w) with
  | none =>
    rw [execute_of_unread m hi]
    exact .unknown ((Instruction.ofFields?_eq_none_iff w).1 hi)
  | some i =>
    cases i with
    | call a => exact execution_call m hi
    | ret => exact execution_ret m hi
    | awaitKey x => exact execution_other m hi (by rintro a ⟨⟩) (by rintro ⟨⟩) rfl
    | _ =>
      exact execution_other m hi (by rintro a ⟨⟩) (by rintro ⟨⟩)
        (fault_perform_plain m trivial)

/-- What the execution of the word `w` records, and what it leaves when it records a fault. -/
structure Verdict (m : Machine) (w : UInt16) : Prop where
  overflow : (m.execute (.ofWord w)).fault = some .stackOverflow ↔
    w.toNat / 0x1000 = 0x2 ∧ m.stack.depth = 16
  underflow : (m.execute (.ofWord w)).fault = some .stackUnderflow ↔
    w = 0x00EE ∧ m.stack.depth = 0
  unknown : (m.execute (.ofWord w)).fault = some .unknownOpcode ↔ Pattern.Unknown w.toNat
  fine : (m.execute (.ofWord w)).fault = none ↔
    ¬ (w.toNat / 0x1000 = 0x2 ∧ m.stack.depth = 16) ∧ ¬ (w = 0x00EE ∧ m.stack.depth = 0) ∧
      ¬ Pattern.Unknown w.toNat
  stepsOver : Pattern.Unknown w.toNat →
    m.execute (.ofWord w) = { m with fault := some .unknownOpcode, pc := m.pc + 2 }
  stops : ∀ f, f.isStackFault = true → (m.execute (.ofWord w)).fault = some f →
    m.execute (.ofWord w) = { m with fault := some f, mode := .halted }

theorem execute_verdict (m : Machine) (w : UInt16) : m.Verdict w := by
  have hcall : w.toNat / 0x1000 = 0x2 → ¬ Pattern.Unknown w.toNat := by
    intro h
    obtain ⟨a, ha⟩ := (Instruction.reads_call_iff w).2 h
    exact Instruction.not_unknown_of_reads ha
  have hret : w = 0x00EE → ¬ Pattern.Unknown w.toNat := fun h =>
    Instruction.not_unknown_of_reads ((Instruction.reads_ret_iff w).2 h)
  have hapart : w = 0x00EE → w.toNat / 0x1000 ≠ 0x2 := by
    rintro rfl h
    cases h
  have he := execution_cases m w
  generalize hm : m.execute (.ofWord w) = m' at he
  cases he with
  | unknown h =>
    have hc : w.toNat / 0x1000 ≠ 0x2 := fun hc => hcall hc h
    have hr : w ≠ 0x00EE := fun hr => hret hr h
    constructor
    case stops => rw [hm]; rintro _ hf ⟨⟩; cases hf
    all_goals simp [hm, h, hc, hr]
  | overflowed h hd =>
    have hr : w ≠ 0x00EE := fun hr => hapart hr h
    constructor
    case stops => rw [hm]; rintro _ - ⟨⟩; rfl
    all_goals simp [hm, h, hd, hr, hcall h]
  | underflowed h hd =>
    have hc : w.toNat / 0x1000 ≠ 0x2 := hapart h
    constructor
    case stops => rw [hm]; rintro _ - ⟨⟩; rfl
    all_goals simp [hm, hc, hd, hret h]
    all_goals exact h
  | done h ho hu m' hf =>
    constructor
    case stops => rw [hm, hf]; rintro _ - ⟨⟩
    all_goals simp [hm, h, ho, hu, hf]

end Machine

end Chip8
