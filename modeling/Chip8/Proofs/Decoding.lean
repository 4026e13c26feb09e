import Chip8.Proofs.Image
import Chip8.Proofs.Recognition
import Mathlib.Data.Int.Bitwise

/-! Decoding. The fields of an integer are cut from its low sixteen bits, by masks and shifts in two's
complement. They can be put together again, and what is decoded then has the same fields. Executing looks
at nothing but the fields, so neither a sign nor the bits above the sixteenth make a difference, and a
fetched word is executed as any integer that ends in it.

* `land_eq`: a mask of sixteen bits sees an integer modulo `65536`;
* `cut_eq`: a mask and a shift as a remainder and a quotient;
* `lossless_ofInt`: the fields, how they fit together, and that they come back;
* `decoding_lossless`: the same with what is executed. -/

namespace Chip8

namespace Fields

/-! ## Masks and shifts -/

/-- The bits that a mask keeps of an integer, moved down. -/
def cut (i : Int) (mask shift : Nat) : Int :=
  i.land mask >>> shift

theorem testBit_emod_negSucc (n k : Nat) :
    (Int.negSucc n % 65536).toNat.testBit k = (decide (k < 16) && !n.testBit k) := by
  have hn : (Int.negSucc n % 65536).toNat = 2 ^ 16 - (n % 2 ^ 16 + 1) := by omega
  rw [hn, Nat.testBit_two_pow_sub_succ (Nat.mod_lt _ (by decide)), Nat.testBit_mod_two_pow]
  cases decide (k < 16) <;> rfl

theorem testBit_eq_false_of_mask {mask k : Nat} (h : mask < 65536) (hk : ¬ k < 16) :
    mask.testBit k = false := by
  have hpow : 2 ^ 16 ≤ 2 ^ k := Nat.pow_le_pow_right (by decide) (Nat.le_of_not_lt hk)
  exact Nat.testBit_lt_two_pow (Nat.lt_of_lt_of_le h hpow)

/-- The bits of a negative integer are those of its complement, inverted. -/
theorem land_eq (i : Int) {mask : Nat} (h : mask < 65536) :
    i.land mask = ((i % 65536).toNat &&& mask : Nat) := by
  cases i with
  | ofNat n =>
    have hn : ((n : Int) % 65536).toNat = n % 2 ^ 16 := by omega
    have hbits : n &&& mask = n % 2 ^ 16 &&& mask := by
      apply Nat.eq_of_testBit_eq
      intro k
      rw [Nat.testBit_and, Nat.testBit_and, Nat.testBit_mod_two_pow]
      by_cases hk : k < 16
      · simp only [hk, decide_true, Bool.true_and]
      · simp only [testBit_eq_false_of_mask h hk, Bool.and_false]
    rw [Int.ofNat_eq_natCast, hn, ← hbits]
    rfl
  | negSucc n =>
    have hbits : Nat.ldiff mask n = (Int.negSucc n % 65536).toNat &&& mask := by
      apply Nat.eq_of_testBit_eq
      intro k
      rw [Nat.testBit_ldiff, Nat.testBit_and, testBit_emod_negSucc]
      by_cases hk : k < 16
      · simp only [hk, decide_true, Bool.true_and, Bool.and_comm]
      · simp only [testBit_eq_false_of_mask h hk, Bool.false_and, Bool.and_false]
    rw [← hbits]
    rfl

theorem cut_eq (i : Int) (width shift : Nat) (h : (2 ^ width - 1) <<< shift < 65536) :
    cut i ((2 ^ width - 1) <<< shift) shift =
      ((i % 65536).toNat / 2 ^ shift % 2 ^ width : Nat) := by
  have hnat : ((i % 65536).toNat &&& (2 ^ width - 1) <<< shift) >>> shift =
      (i % 65536).toNat / 2 ^ shift % 2 ^ width := by
    rw [Nat.shiftRight_and_distrib, Nat.shiftLeft_shiftRight, Nat.and_two_pow_sub_one_eq_mod,
      Nat.shiftRight_eq_div_pow]
  rw [cut, land_eq i h, ← hnat]
  rfl

theorem cut_zero (i : Int) (width : Nat) (h : 2 ^ width - 1 < 65536) :
    cut i (2 ^ width - 1) 0 = ((i % 65536).toNat % 2 ^ width : Nat) := by
  have hcut := cut_eq i width 0 h
  rwa [Nat.pow_zero, Nat.div_one] at hcut

/-! ## The fields of an integer -/

/-- The fields are those of the integer `i`, and nothing of its low sixteen bits is lost.

* Each but `raw` is cut from `i` by its own mask;
* `nnn` holds `x` and `nn`, `nn` holds `y` and `n`, and `family` and `nnn` are the whole word;
* an integer with the same low sixteen bits, and the word that is put together from the fields, have the
  same fields again. -/
structure Lossless (f : Fields) (i : Int) : Prop where
  raw : f.raw = i
  bounds : f.family.val ≤ 15 ∧ f.x.val ≤ 15 ∧ f.y.val ≤ 15 ∧ f.n.val ≤ 15 ∧ f.nn.toNat ≤ 255 ∧
    f.nnn.val ≤ 4095
  nibbles : f.family.val = cut i 0xF000 12 ∧ f.x.val = cut i 0x0F00 8 ∧ f.y.val = cut i 0x00F0 4 ∧
    f.n.val = cut i 0x000F 0
  longer : f.nn.toNat = cut i 0x00FF 0 ∧ f.nnn.val = cut i 0x0FFF 0
  whole : (f.family.val * 4096 + f.nnn.val : Int) = i % 65536
  parts : f.nnn.val = f.x.val * 256 + f.nn.toNat ∧ f.nn.toNat = f.y.val * 16 + f.n.val
  low : ofInt (i % 65536) = { f with raw := i % 65536 }
  again : ofInt f.word = { f with raw := f.word }

theorem toNat_emod_lt (i : Int) : (i % 65536).toNat < 65536 := by
  omega

theorem word_ofInt (i : Int) : (ofInt i).word = (i % 65536).toNat :=
  word_ofNat i _ (toNat_emod_lt i)

/-- Integers that agree in their low sixteen bits have the same fields. -/
theorem ofInt_congr {i j : Int} (h : i % 65536 = j % 65536) : ofInt j = { ofInt i with raw := j } := by
  rw [ofInt, ofInt, h]
  rfl

theorem lossless_ofInt (i : Int) : (ofInt i).Lossless i := by
  have hlt := toNat_emod_lt i
  have hfamily : (ofInt i).family.val = (i % 65536).toNat / 4096 % 16 := val_family _ _
  have hx : (ofInt i).x.val = (i % 65536).toNat / 256 % 16 := val_x _ _
  have hy : (ofInt i).y.val = (i % 65536).toNat / 16 % 16 := val_y _ _
  have hn : (ofInt i).n.val = (i % 65536).toNat % 16 := val_n _ _
  have hnnn : (ofInt i).nnn.val = (i % 65536).toNat % 4096 := val_nnn _ _
  have hnn : (ofInt i).nn.toNat = (i % 65536).toNat % 256 := toNat_nn _ _
  constructor
  case raw => rfl
  case bounds => omega
  case nibbles =>
    rw [hfamily, hx, hy, hn]
    exact ⟨(cut_eq i 4 12 (by decide)).symm, (cut_eq i 4 8 (by decide)).symm,
      (cut_eq i 4 4 (by decide)).symm, (cut_zero i 4 (by decide)).symm⟩
  case longer =>
    rw [hnn, hnnn]
    exact ⟨(cut_zero i 8 (by decide)).symm, (cut_zero i 12 (by decide)).symm⟩
  case whole => omega
  case parts => omega
  case low => exact ofInt_congr (Int.emod_emod_of_dvd i (Int.dvd_refl _)).symm
  case again =>
    apply ofInt_congr
    rw [word_ofInt]
    omega

end Fields

namespace Machine

theorem execute_congr_raw (m : Machine) (f : Fields) (raw : Int) :
    m.execute { f with raw } = m.execute f := rfl

theorem execute_ofInt_congr (m : Machine) {i j : Int} (h : i % 65536 = j % 65536) :
    m.execute (.ofInt j) = m.execute (.ofInt i) := by
  rw [Fields.ofInt_congr h, execute_congr_raw]

theorem toNat_fetch (m : Machine) : m.fetch.toNat =
    256 * (m.memory.get (Address.ofNat m.pc.toNat)).toNat +
      (m.memory.get (Address.ofNat (m.pc.toNat + 1))).toNat := by
  have hhigh := (m.memory.read m.pc.toNat).toNat_lt
  have hlow := (m.memory.read (m.pc.toNat + 1)).toNat_lt
  have hword : m.fetch.toNat = 256 * (m.memory.read m.pc.toNat).toNat +
      (m.memory.read (m.pc.toNat + 1)).toNat := by
    rw [fetch, UInt16.toNat_ofNat']
    omega
  exact hword

theorem decoding_lossless (i : Int) : (Fields.ofInt i).Lossless i ∧ ∀ m : Machine,
    m.execute (.ofInt i) = m.execute (.ofInt (i % 65536)) ∧
    m.fetch.toNat = 256 * (m.memory.get (Address.ofNat m.pc.toNat)).toNat +
      (m.memory.get (Address.ofNat (m.pc.toNat + 1))).toNat ∧
    (m.mode = .running → m.fetch.toNat = i % 65536 → m.step = m.execute (.ofInt i)) := by
  refine ⟨Fields.lossless_ofInt i, fun m => ⟨?_, m.toNat_fetch, ?_⟩⟩
  · exact m.execute_ofInt_congr (Int.emod_emod_of_dvd i (Int.dvd_refl _))
  · intro hr hi
    rw [step_of_running hr, ← Fields.ofInt_ofNat]
    apply m.execute_ofInt_congr
    rw [hi]
    exact (Int.emod_emod_of_dvd i (Int.dvd_refl _)).symm

/-- The word of an addition, fetched, and a negative number that ends in it. -/
theorem decoding_lossless_negative :
    let m := (initial (.ofSeed 0)).loaded [0x6A, 0x05]
    m.mode = .running ∧ (m.fetch.toNat : Int) = -38395 % 65536 ∧
      m.step = m.execute (.ofInt (-38395)) := by
  intro m
  have hmode : m.mode = .running := mode_loaded _ _
  have hfetch : m.fetch = 0x6A05 := fetch_loaded _ (by decide)
  have hword : (m.fetch.toNat : Int) = -38395 % 65536 := by
    rw [hfetch]
    rfl
  exact ⟨hmode, hword, ((decoding_lossless (-38395)).2 m).2.2 hmode hword⟩

end Machine

end Chip8
