import Chip8.CallStack.Use
import Chip8.Proofs.Stack
import Mathlib.Data.List.GetD

/-! The call stack as a list. Behind any uses of an empty stack, its slots are the numbers of a list of
at most sixteen followed by zeros, and what was reported is what the list reports. So the list is all
that there is to know about a stack.

* `push_eq`, `pop_eq`: what is done to the slots is what calls and returns do;
* `Holds.push`, `Holds.pop`: one use, on the stack and on the list;
* `Holds.eq`: stacks that hold the same list are the same;
* `useAll_mirrors`: any number of uses. -/

namespace Chip8.CallStack

theorem push_eq (s : CallStack) (a : UInt16) : s.push a =
    match s.push? a with
    | some s' => (s', false)
    | none => (s, true) := by
  have hle := s.depth_le
  by_cases h : s.depth < 16
  · have hfull : ¬ 16 ≤ s.depth := by omega
    have hslot : min s.depth 15 = s.depth := by omega
    simp only [push, push?, h, hfull, hslot, ↓reduceDIte, ↓reduceIte, decide_false]
  · have hfull : 16 ≤ s.depth := by omega
    simp only [push, push?, h, hfull, ↓reduceDIte, ↓reduceIte, decide_true]

theorem pop_eq (s : CallStack) : s.pop =
    match s.pop? with
    | some (a, s') => (s', a, false)
    | none => (s, s.top, true) := by
  by_cases h : s.depth ≤ 0
  · have hpos : ¬ 0 < s.depth := by omega
    simp only [pop, pop?, h, hpos, ↓reduceIte, decide_true]
  · have hpos : 0 < s.depth := by omega
    simp only [pop, pop?, h, hpos, ↓reduceIte, decide_false]

/-- The slots are the numbers of the list, and zeros behind them. -/
structure Holds (s : CallStack) (l : List Nat) : Prop where
  depth : s.depth = l.length
  slots : s.slots.toList.map UInt16.toNat = l ++ List.replicate (16 - l.length) 0

theorem getD_concat (l : List Nat) (n i : Nat) :
    (l ++ [n]).getD i 0 = if l.length = i then n else l.getD i 0 := by
  by_cases hi : i < l.length
  · rw [List.getD_append _ _ _ _ hi, if_neg (by omega)]
  · rw [List.getD_append_right _ _ _ _ (by omega), List.getD_eq_default l _ (by omega)]
    by_cases he : l.length = i
    · rw [if_pos he, he, Nat.sub_self]
      rfl
    · rw [if_neg he, List.getD_eq_default]
      rw [List.length_singleton]
      omega

/-- The same slot by slot; behind the list, its numbers count as zeros. -/
theorem holds_iff (s : CallStack) (l : List Nat) :
    s.Holds l ↔ s.depth = l.length ∧ ∀ i (hi : i < 16), s.slots[i].toNat = l.getD i 0 := by
  have hlen : (s.slots.toList.map UInt16.toNat).length = 16 := by
    rw [List.length_map, Vector.length_toList]
  have hslot : ∀ i (hi : i < 16), (s.slots.toList.map UInt16.toNat).getD i 0 = s.slots[i].toNat := by
    intro i hi
    rw [List.getD_eq_getElem _ _ (by rwa [hlen]), List.getElem_map, Vector.getElem_toList]
  have hpad : ∀ i, (l ++ List.replicate (16 - l.length) 0).getD i 0 = l.getD i 0 := by
    intro i
    by_cases hi : i < l.length
    · rw [List.getD_append _ _ _ _ hi]
    · rw [List.getD_append_right _ _ _ _ (by omega), List.getD_eq_getElem?_getD,
        List.getElem?_getD_replicate_default_eq, List.getD_eq_default _ _ (by omega)]
  constructor
  · rintro ⟨hd, hs⟩
    refine ⟨hd, fun i hi => ?_⟩
    rw [← hslot i hi, hs, hpad]
  · rintro ⟨hd, hs⟩
    have hle := s.depth_le
    refine ⟨hd, List.ext_getElem ?_ fun i hi hi' => ?_⟩
    · rw [hlen, List.length_append, List.length_replicate]
      omega
    · have hi16 : i < 16 := by rwa [hlen] at hi
      rw [← List.getD_eq_getElem _ 0 hi, ← List.getD_eq_getElem _ 0 hi', hpad, hslot i hi16,
        hs i hi16]

theorem holds_empty : empty.Holds [] := by
  rw [holds_iff]
  refine ⟨rfl, fun i hi => ?_⟩
  rw [empty, Vector.getElem_replicate]
  rfl

namespace Holds

variable {s t : CallStack} {l : List Nat}

theorem length_le (h : s.Holds l) : l.length ≤ 16 := by
  rw [← h.depth]
  exact s.depth_le

theorem eq (hs : s.Holds l) (ht : t.Holds l) : s = t := by
  rw [holds_iff] at hs ht
  apply eq_of_slots (hs.1.trans ht.1.symm)
  intro i hi
  rw [← UInt16.toNat_inj, hs.2 i hi, ht.2 i hi]

/-! ## One use -/

theorem push (h : s.Holds l) (hl : l.length < 16) (a : UInt16) :
    ∃ s', s.push a = (s', false) ∧ s'.Holds (l ++ [a.toNat % 0x1000]) := by
  rw [holds_iff] at h
  obtain ⟨hd, hs⟩ := h
  cases hp : s.push? a with
  | none =>
    rw [push?_eq_none_iff] at hp
    omega
  | some s' =>
    obtain ⟨hd', hs'⟩ := push?_some hp
    refine ⟨s', by rw [push_eq, hp], ?_⟩
    rw [holds_iff, List.length_append, List.length_singleton]
    refine ⟨by omega, fun i hi => ?_⟩
    rw [hs' i hi, getD_concat, ← hd]
    split
    · exact toNat_low a
    · exact hs i hi

theorem push_full (h : s.Holds l) (hl : l.length = 16) (a : UInt16) : s.push a = (s, true) := by
  rw [push_eq, (push?_eq_none_iff s a).2 (h.depth.trans hl)]

/-- The slot of the number that is given turns to zero. -/
theorem pop {n : Nat} (h : s.Holds (l ++ [n])) :
    ∃ s' a, s.pop = (s', a, false) ∧ a.toNat = n ∧ s'.Holds l := by
  rw [holds_iff, List.length_append, List.length_singleton] at h
  obtain ⟨hd, hs⟩ := h
  have hle := s.depth_le
  cases hp : s.pop? with
  | none =>
    rw [pop?_eq_none_iff] at hp
    omega
  | some popped =>
    obtain ⟨a, s'⟩ := popped
    obtain ⟨hd', ha, hs'⟩ := pop?_some hp
    have hlen : s'.depth = l.length := by omega
    refine ⟨s', a, by rw [pop_eq, hp], ?_, ?_⟩
    · rw [ha (by omega), hs _ (by omega), getD_concat, if_pos hlen.symm]
    · rw [holds_iff]
      refine ⟨hlen, fun i hi => ?_⟩
      rw [hs' i hi, hlen]
      split
      · rw [List.getD_eq_default _ _ (by omega)]
        rfl
      · rw [hs i hi, getD_concat, if_neg ‹_›]

theorem pop_empty (h : s.Holds []) : s.pop = (s, 0, true) := by
  have htop : s.top = 0 := by
    rw [holds_iff] at h
    obtain ⟨hd, hs⟩ := h
    rw [← UInt16.toNat_inj, top]
    simp only [hd]
    exact hs 0 (by decide)
  rw [pop_eq, (pop?_eq_none_iff s).2 h.depth, htop]

theorem use (h : s.Holds l) (u : Use) :
    (s.use u).1.Holds (u.onList l).1 ∧ (s.use u).2 = (u.onList l).2 := by
  cases u with
  | push a =>
    by_cases hl : l.length < 16
    · obtain ⟨s', hp, hs'⟩ := h.push hl a
      rw [CallStack.use, Use.onList, hp, if_pos hl]
      exact ⟨hs', rfl⟩
    · have hfull : l.length = 16 := Nat.le_antisymm h.length_le (Nat.le_of_not_lt hl)
      rw [CallStack.use, Use.onList, h.push_full hfull a, if_neg hl]
      exact ⟨h, rfl⟩
  | pop =>
    rcases List.eq_nil_or_concat l with rfl | ⟨l', n, rfl⟩
    · rw [CallStack.use, Use.onList, h.pop_empty]
      exact ⟨h, rfl⟩
    · rw [List.concat_eq_append] at h ⊢
      obtain ⟨s', a, hp, rfl, hs'⟩ := h.pop
      rw [CallStack.use, Use.onList, hp, List.dropLast_concat, List.getLastD_concat]
      exact ⟨hs', by simp⟩

/-! ## Any number of uses -/

theorem useAll (h : s.Holds l) (uses : List Use) :
    (s.useAll uses).1.Holds (onListAll l uses).1 ∧ (s.useAll uses).2 = (onListAll l uses).2 := by
  induction uses generalizing s l with
  | nil => exact ⟨h, rfl⟩
  | cons u rest ih =>
    obtain ⟨hs, hr⟩ := h.use u
    obtain ⟨hs', hr'⟩ := ih hs
    refine ⟨hs', ?_⟩
    simp only [CallStack.useAll, onListAll, hr, hr']

end Holds

/-- The stack is the list. A push appends a number of twelve bits while there is room, a pop takes the
newest number away; a stack that has no room or nothing to give says so and is the same stack as before.
No other stack holds the list, and calls and returns push and pop the same. -/
structure Mirrors (s : CallStack) (l : List Nat) : Prop where
  holds : s.Holds l
  room : l.length ≤ 16
  pushed : ∀ a, l.length < 16 → ∃ s', s.push a = (s', false) ∧ s'.Holds (l ++ [a.toNat % 0x1000])
  overflow : ∀ a, l.length = 16 → s.push a = (s, true)
  popped : ∀ l' n, l = l' ++ [n] → ∃ s' a, s.pop = (s', a, false) ∧ a.toNat = n ∧ s'.Holds l'
  underflow : l = [] → s.pop = (s, 0, true)
  only : ∀ t : CallStack, t.Holds l → t = s
  calls : ∀ a, s.push? a = if (s.push a).2 then none else some (s.push a).1
  returns : s.pop? = if s.pop.2.2 then none else some (s.pop.2.1, s.pop.1)

theorem Holds.mirrors {s : CallStack} {l : List Nat} (h : s.Holds l) : s.Mirrors l where
  holds := h
  room := h.length_le
  pushed a hl := h.push hl a
  overflow a hl := h.push_full hl a
  popped l' n hl := Holds.pop (hl ▸ h)
  underflow hl := Holds.pop_empty (hl ▸ h)
  only t ht := ht.eq h
  calls a := by
    rw [push_eq]
    cases s.push? a <;> rfl
  returns := by
    rw [pop_eq]
    cases s.pop? <;> rfl

theorem useAll_mirrors (uses : List Use) :
    (empty.useAll uses).1.Mirrors (onListAll [] uses).1 ∧
      (empty.useAll uses).2 = (onListAll [] uses).2 := by
  obtain ⟨hs, hr⟩ := holds_empty.useAll uses
  exact ⟨hs.mirrors, hr⟩

example : (empty.useAll [.push 0x1ABC, .pop, .pop]).2 =
    [.pushed false, .popped 0xABC false, .popped 0 true] := by decide

end Chip8.CallStack
