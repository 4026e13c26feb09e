import Chip8.CallStack

/-! Pushes and pops slot by slot. A push writes the slot at the depth and a pop clears it again; no
other slot changes. A tidy stack is zero from its depth on, so it is known by what lies below. -/

namespace Chip8

theorem toNat_low (a : UInt16) : (a &&& 0xFFF).toNat = a.toNat % 0x1000 :=
  Nat.and_two_pow_sub_one_eq_mod a.toNat 12

namespace CallStack

theorem push?_some {s s' : CallStack} {a : UInt16} (h : s.push? a = some s') :
    s'.depth = s.depth + 1 ∧
      ∀ i (hi : i < 16), s'.slots[i] = if s.depth = i then a &&& 0xFFF else s.slots[i] := by
  unfold push? at h
  split at h
  · cases h
    refine ⟨rfl, ?_⟩
    intro i hi
    rw [Vector.getElem_set]
  · cases h

theorem pop?_some {s s' : CallStack} {a : UInt16} (h : s.pop? = some (a, s')) :
    s.depth = s'.depth + 1 ∧ (∀ hi : s'.depth < 16, a = s.slots[s'.depth]) ∧
      ∀ i (hi : i < 16), s'.slots[i] = if s'.depth = i then 0 else s.slots[i] := by
  unfold pop? at h
  split at h
  · cases h
    refine ⟨by simp only; omega, ?_, ?_⟩
    · intro hi
      rfl
    · intro i hi
      rw [Vector.getElem_set]
  · cases h

theorem top_of_pop? {s s' : CallStack} {a : UInt16} (h : s.pop? = some (a, s')) :
    0 < s.depth ∧ a = s.top := by
  unfold pop? at h
  split at h
  · cases h
    exact ⟨‹_›, rfl⟩
  · cases h

theorem eq_of_slots {s t : CallStack} (hd : s.depth = t.depth)
    (h : ∀ i (hi : i < 16), s.slots[i] = t.slots[i]) : s = t := by
  obtain ⟨slots, depth, hle⟩ := s
  obtain ⟨slots', depth', hle'⟩ := t
  obtain rfl : depth = depth' := hd
  obtain rfl : slots = slots' := Vector.ext h
  rfl

/-- Zero from the depth on, and addresses of twelve bits below it. -/
structure Tidy (s : CallStack) : Prop where
  above : ∀ i (hi : i < 16), s.depth ≤ i → s.slots[i] = 0
  below : ∀ i (hi : i < 16), i < s.depth → s.slots[i].toNat ≤ 0xFFF

theorem tidy_empty : empty.Tidy where
  above _ hi _ := Vector.getElem_replicate hi
  below _ _ h := absurd h (Nat.not_lt_zero _)

theorem Tidy.push? {s s' : CallStack} {a : UInt16} (h : s.Tidy) (hp : s.push? a = some s') :
    s'.Tidy := by
  obtain ⟨hd, hs⟩ := push?_some hp
  constructor
  · intro i hi hle
    rw [hs i hi, if_neg (by omega)]
    exact h.above i hi (by omega)
  · intro i hi hlt
    rw [hs i hi]
    split
    · rw [toNat_low]
      omega
    · exact h.below i hi (by omega)

theorem Tidy.pop? {s s' : CallStack} {a : UInt16} (h : s.Tidy) (hp : s.pop? = some (a, s')) :
    s'.Tidy := by
  obtain ⟨hd, -, hs⟩ := pop?_some hp
  constructor
  · intro i hi hle
    rw [hs i hi]
    split
    · rfl
    · exact h.above i hi (by omega)
  · intro i hi hlt
    rw [hs i hi, if_neg (by omega)]
    exact h.below i hi (by omega)

theorem Tidy.eq {s t : CallStack} (hs : s.Tidy) (ht : t.Tidy) (hd : s.depth = t.depth)
    (h : ∀ i (hi : i < 16), i < s.depth → s.slots[i] = t.slots[i]) : s = t := by
  apply eq_of_slots hd
  intro i hi
  by_cases hlt : i < s.depth
  · exact h i hi hlt
  · rw [hs.above i hi (by omega), ht.above i hi (by omega)]

/-! ## Stacks above a stack -/

/-- The stack `t` still holds what `base` holds, and maybe more above it. -/
structure Extends (base t : CallStack) : Prop where
  depth : base.depth ≤ t.depth
  slots : ∀ i (hi : i < 16), i < base.depth → t.slots[i] = base.slots[i]

theorem extends_refl (base : CallStack) : base.Extends base :=
  ⟨Nat.le_refl _, fun _ _ _ => rfl⟩

theorem Extends.push? {base s s' : CallStack} {a : UInt16} (h : base.Extends s)
    (hp : s.push? a = some s') : base.Extends s' := by
  obtain ⟨hd, hs⟩ := push?_some hp
  have hle := h.depth
  constructor
  · omega
  · intro i hi hlt
    rw [hs i hi, if_neg (by omega)]
    exact h.slots i hi hlt

theorem Extends.slots_pop? {base s s' : CallStack} {a : UInt16} (h : base.Extends s)
    (hp : s.pop? = some (a, s')) {i : Nat} (hi : i < 16) (hb : i < base.depth) (hd : i < s'.depth) :
    s'.slots[i] = base.slots[i] := by
  rw [(pop?_some hp).2.2 i hi, if_neg (by omega)]
  exact h.slots i hi hb

end CallStack

end Chip8
