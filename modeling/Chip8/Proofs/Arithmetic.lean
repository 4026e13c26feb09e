import Chip8.Machine.Part
import Chip8.Proofs.Recognition
import Mathlib.Algebra.Group.Nat.Defs

/-! The arithmetic of the registers, told in numbers without a bound. A register has eight bits, so a sum,
a difference or a double comes out in two parts: the low one in the register, the rest in the flag.

* `exact_apply`: what an operation makes of the two numbers;
* `register_operate`: where it puts what it made, whichever registers are named;
* `execute_arithmetic`: both for the words `8XY0` to `8XYE`, with `7XNN` and `FX1E` beside them. -/

namespace Chip8

namespace Operation

/-- The result `r` and the flag `c` that an operation makes of `a` and `b`. What has nothing to report
says nothing about the flag. -/
def Exact (op : Operation) (a b r c : Nat) : Prop :=
  match op with
  | copy => r = b
  | or => r = a ||| b
  | and => r = a &&& b
  | xor => r = a ^^^ b
  | add => r + 256 * c = a + b
  | sub => (r : Int) = a - b + 256 * (1 - c) ∧ (c = 1 ↔ b ≤ a)
  | shiftRight => 2 * r + c = a
  | subFrom => (r : Int) = b - a + 256 * (1 - c) ∧ (c = 1 ↔ a ≤ b)
  | shiftLeft => 256 * c + r = 2 * a

theorem toNat_shiftRight_eq_div (a k : UInt8) : (a >>> k).toNat = a.toNat / 2 ^ (k.toNat % 8) := by
  rw [UInt8.toNat_shiftRight]
  exact Nat.shiftRight_eq_div_pow _ _

theorem toNat_shiftLeft_one (a : UInt8) : (a <<< 1).toNat = 2 * a.toNat % 256 := by
  rw [UInt8.toNat_shiftLeft]
  show a.toNat <<< 1 % 256 = _
  rw [Nat.shiftLeft_eq, Nat.mul_comm]

theorem toNat_and_one (a : UInt8) : (a &&& 1).toNat = a.toNat % 2 := by
  rw [UInt8.toNat_and]
  exact Nat.and_one_is_mod _

theorem toNat_bit_decide (p : Prop) [Decidable p] : (bit (decide p)).toNat = if p then 1 else 0 := by
  by_cases h : p <;> simp [h, toNat_bit]

/-- A difference that is short of zero is made up by 256, and the flag says so. -/
theorem exact_difference (a b : UInt8) :
    ((a - b).toNat : Int) = a.toNat - b.toNat + 256 * (1 - ((bit (decide (b ≤ a))).toNat : Int)) ∧
      ((bit (decide (b ≤ a))).toNat = 1 ↔ b.toNat ≤ a.toNat) := by
  have ha := a.toNat_lt
  have hb := b.toNat_lt
  have hd := UInt8.toNat_sub a b
  rw [toNat_bit_decide]
  split <;> rename_i hle <;> rw [UInt8.le_iff_toNat_le] at hle <;> omega

theorem exact_apply (op : Operation) (vx vy vf : UInt8) :
    op.Exact vx.toNat vy.toNat (op.apply vx vy vf).1.toNat (op.apply vx vy vf).2.toNat := by
  have hx := vx.toNat_lt
  have hy := vy.toNat_lt
  cases op with
  | copy => rfl
  | or => exact UInt8.toNat_or vx vy
  | and => exact UInt8.toNat_and vx vy
  | xor => exact UInt8.toNat_xor vx vy
  | add =>
    simp only [Exact, apply, toNat_bit_decide, UInt8.toNat_add]
    split <;> omega
  | sub => exact exact_difference vx vy
  | shiftRight =>
    have hhalf : (vx >>> 1).toNat = vx.toNat / 2 := toNat_shiftRight_eq_div vx 1
    simp only [Exact, apply, hhalf, toNat_and_one]
    omega
  | subFrom => exact exact_difference vy vx
  | shiftLeft =>
    have htop : (vx >>> 7).toNat = vx.toNat / 128 := toNat_shiftRight_eq_div vx 7
    simp only [Exact, apply, toNat_shiftLeft_one, htop]
    omega

/-- What is reported is one bit. -/
theorem flag_apply_le {op : Operation} (h : op.Reports) (vx vy vf : UInt8) :
    (op.apply vx vy vf).2.toNat ≤ 1 := by
  have hx := vx.toNat_lt
  cases op with
  | copy | or | and | xor => exact h.elim
  | add | sub | subFrom =>
    simp only [apply, toNat_bit_decide]
    split <;> omega
  | shiftRight =>
    simp only [apply, toNat_and_one]
    omega
  | shiftLeft =>
    have htop : (vx >>> 7).toNat = vx.toNat / 128 := toNat_shiftRight_eq_div vx 7
    simp only [apply, htop]
    omega

theorem flag_apply_of_not_reports {op : Operation} (h : ¬ op.Reports) (vx vy vf : UInt8) :
    (op.apply vx vy vf).2 = vf := by
  cases op with
  | copy | or | and | xor => rfl
  | _ => exact absurd trivial h

end Operation

namespace Machine

/-- The flag goes first, so where `VX` is the flag, the result is what stays. -/
theorem register_operate (m : Machine) (op : Operation) (x y z : Register) :
    (m.operate op x y).register z =
      if x = z then (op.apply (m.register x) (m.register y) (m.register flagRegister)).1
      else if flagRegister = z then
        (op.apply (m.register x) (m.register y) (m.register flagRegister)).2
      else m.register z := by
  rw [operate, register_setRegister, register_setRegister]

/-- From the one machine to the other, a register operation has left the result `r` in `VX` and reported
the flag `c`. Only the registers, the program counter and the fault field have changed. -/
structure Operated (m : Machine) (op : Operation) (x y : Register) (r c : Nat) (m' : Machine) :
    Prop where
  rest : ∃ registers, m' = { m with registers, fault := none, pc := m.pc + 2 }
  exact : op.Exact (m.register x).toNat (m.register y).toNat r c
  byte : r ≤ 255
  bit : op.Reports → c ≤ 1
  result : (m'.register x).toNat = r
  flag : op.Reports → x ≠ flagRegister → (m'.register flagRegister).toNat = c
  others : ∀ z, z ≠ x → (op.Reports → z ≠ flagRegister) → m'.register z = m.register z

theorem operated_operate (m : Machine) (op : Operation) (x y : Register) :
    ∃ r c, m.Operated op x y r c ({ m with fault := none }.operate op x y).next := by
  let p := op.apply (m.register x) (m.register y) (m.register flagRegister)
  have hreg : ∀ z, ({ m with fault := none }.operate op x y).next.register z =
      if x = z then p.1 else if flagRegister = z then p.2 else m.register z :=
    register_operate { m with fault := none } op x y
  refine ⟨p.1.toNat, p.2.toNat, ⟨_, rfl⟩, op.exact_apply _ _ _, ?_, ?_, ?_, ?_, ?_⟩
  · have hp := p.1.toNat_lt
    omega
  · exact fun h => op.flag_apply_le h _ _ _
  · rw [hreg, if_pos rfl]
  · intro _ hx
    rw [hreg, if_neg hx, if_pos rfl]
  · intro z hx hf
    rw [hreg, if_neg (Ne.symm hx)]
    by_cases hz : flagRegister = z
    · have hreports : ¬ op.Reports := fun h => hf h hz.symm
      rw [if_pos hz, ← hz]
      exact op.flag_apply_of_not_reports hreports _ _ _
    · rw [if_neg hz]

/-- From the one machine to the other, `NN` was added to `VX` and no flag was written. -/
structure ByteAdded (m : Machine) (x : Register) (b : UInt8) (m' : Machine) : Prop where
  rest : ∃ registers, m' = { m with registers, fault := none, pc := m.pc + 2 }
  result : (m'.register x).toNat = ((m.register x).toNat + b.toNat) % 256
  others : ∀ z, z ≠ x → m'.register z = m.register z

theorem byteAdded_setRegister (m : Machine) (x : Register) (b : UInt8) :
    m.ByteAdded x b ({ m with fault := none }.setRegister x (m.register x + b)).next := by
  have hreg := register_setRegister { m with fault := none } x
  refine ⟨⟨_, rfl⟩, ?_, ?_⟩
  · refine (congrArg UInt8.toNat (hreg x _)).trans ?_
    rw [if_pos rfl, UInt8.toNat_add]
  · intro z hz
    exact (hreg z _).trans (if_neg hz.symm)

/-- From the one machine to the other, the index has been moved by what `VX` was before, and the flag
says whether that was beyond the top of memory. -/
structure IndexAdded (m : Machine) (x : Register) (m' : Machine) : Prop where
  rest : ∃ registers index, m' = { m with registers, index, fault := none, pc := m.pc + 2 }
  index : m'.index.toNat = (m.index.toNat + (m.register x).toNat) % 65536
  flag : (m'.register flagRegister).toNat =
    if 0xFFF < m.index.toNat + (m.register x).toNat then 1 else 0
  others : ∀ z, z ≠ flagRegister → m'.register z = m.register z

theorem indexAdded_addIndex (m : Machine) (x : Register) :
    m.IndexAdded x ({ m with fault := none }.addIndex x).next := by
  have hreg := register_setRegister { m with fault := none } flagRegister
  refine ⟨⟨_, _, rfl⟩, UInt16.toNat_ofNat', ?_, ?_⟩
  · refine (congrArg UInt8.toNat (hreg flagRegister _)).trans ?_
    rw [if_pos rfl]
    exact Operation.toNat_bit_decide _
  · intro z hz
    exact (hreg z _).trans (if_neg hz.symm)

/-- Whatever a word was cut from, and whichever registers it names, the same one twice or `VF` itself: the
register operations are exact, `7XNN` adds without a flag, and `FX1E` reads `VX` before it writes `VF`. -/
theorem execute_arithmetic (m : Machine) (raw : Int) (x : Register) :
    (∀ op y, ∃ r c,
      m.Operated op x y r c (m.execute (.ofNat raw (Instruction.operate op x y).encode))) ∧
    (∀ b, m.ByteAdded x b (m.execute (.ofNat raw (Instruction.addByte x b).encode))) ∧
    m.IndexAdded x (m.execute (.ofNat raw (Instruction.addIndex x).encode)) := by
  refine ⟨fun op y => ?_, fun b => ?_, ?_⟩
  · rw [execute_of_reads m (Instruction.ofFields?_encode raw _), perform]
    exact m.operated_operate op x y
  · rw [execute_of_reads m (Instruction.ofFields?_encode raw _), perform]
    exact m.byteAdded_setRegister x b
  · rw [execute_of_reads m (Instruction.ofFields?_encode raw _), perform]
    exact m.indexAdded_addIndex x

end Machine

end Chip8
