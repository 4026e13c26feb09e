import Chip8.Instruction.Fields

/-! The sixteen keys, as a host last reported them. -/

namespace Chip8

abbrev Keypad := Vector Bool 16

namespace Keypad

def released : Keypad := Vector.replicate 16 false

def ofFn (down : Register → Bool) : Keypad := Vector.ofFn down

/-- The lowest key that is down now and was up before. -/
def firstPressed? (now before : Keypad) : Option Register :=
  (List.finRange 16).find? fun k => now.get k && !before.get k

theorem get_set (keys : Keypad) (i j : Register) (down : Bool) :
    (keys.set i.val down (Register.val_lt i)).get j = if i = j then down else keys.get j := by
  show (keys.set i.val down (Register.val_lt i))[j.val] = if i = j then down else keys[j.val]
  rw [Vector.getElem_set]
  simp only [Fin.ext_iff]

theorem firstPressed?_eq_none_iff (now before : Keypad) :
    firstPressed? now before = none ↔ ∀ k, now.get k = true → before.get k = true := by
  simp [firstPressed?, List.find?_eq_none]

theorem firstPressed?_eq_some_iff (now before : Keypad) (key : Register) :
    firstPressed? now before = some key ↔
      (now.get key = true ∧ before.get key = false) ∧
        ∀ k, k < key → now.get k = true → before.get k = true := by
  rw [firstPressed?, List.find?_eq_some_iff_getElem, Bool.and_eq_true, Bool.not_eq_true']
  apply and_congr Iff.rfl
  constructor
  · rintro ⟨i, hi, rfl, hb⟩ k hk hn
    have hlt : k.val < i := by simpa [Fin.lt_def] using hk
    simpa [hn] using hb k hlt
  · intro h
    refine ⟨key, by simp, by simp, ?_⟩
    intro j hj
    have hb := h ⟨j, Nat.lt_trans hj key.isLt⟩ hj
    rw [List.getElem_finRange]
    cases hn : now.get ⟨j, Nat.lt_trans hj key.isLt⟩ with
    | false => simp [hn]
    | true => simp [hb hn]

theorem get_released (key : Register) : released.get key = false :=
  Vector.getElem_replicate _

theorem firstPressed?_released (before : Keypad) : firstPressed? released before = none := by
  rw [firstPressed?_eq_none_iff]
  intro k hk
  rw [get_released] at hk
  cases hk

theorem firstPressed?_press (key : Register) :
    firstPressed? (released.set key.val true (Register.val_lt key)) released = some key := by
  rw [firstPressed?_eq_some_iff]
  refine ⟨⟨?_, get_released key⟩, ?_⟩
  · rw [get_set, if_pos rfl]
  · intro k hlt hk
    rw [get_set, if_neg (Fin.ne_of_gt hlt), get_released] at hk
    cases hk

end Keypad

end Chip8
