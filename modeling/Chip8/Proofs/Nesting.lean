import Chip8.Program
import Mathlib.Algebra.BigOperators.Group.List.Basic

/-! Lists within lists that have a shape: as many members on each level as the shape says, and no list
inside the innermost ones. The shape that is found by looking is the one that a value has, up to what
stands behind a level without members, and the leaves stand in the order of the last position first.

* `shape?_list_eq_some_iff`, `isSome_shape?_iff`: a shape is found just when there is one;
* `length_leaves` and `getElem?_leaves`: how many leaves there are, and which is the leaf at a path. -/

namespace Chip8.Value

/-- The shape lists the lengths from the outside in. -/
def HasShape : List Nat → Value → Prop
  | [], v => ∀ l, v ≠ list l
  | n :: s, v => ∃ l, v = list l ∧ l.length = n ∧ ∀ w ∈ l, HasShape s w

/-- A shape as far as it can be seen: nothing shows behind a level that has no members. -/
def seen : List Nat → List Nat
  | [] => []
  | 0 :: _ => [0]
  | (n + 1) :: s => (n + 1) :: seen s

/-- Where a path of positions leads, from the outermost list inwards. -/
def at? (v : Value) : List Nat → Option Value
  | [] => some v
  | i :: path =>
    match v with
    | list l => l[i]?.bind fun w => w.at? path
    | _ => none

/-- The rank of a path when the last position runs first. -/
def rowMajor : List Nat → List Nat → Nat
  | _ :: s, i :: path => i * s.prod + rowMajor s path
  | _, _ => 0

/-- A path that stays inside a shape down to the leaves. -/
def Inside (path shape : List Nat) : Prop :=
  List.Forall₂ (· < ·) path shape

/-! ## The shape that is found -/

theorem shape?_of_not_list {v : Value} (h : ∀ l, v ≠ list l) : v.shape? = some [] := by
  cases v with
  | list l => exact absurd rfl (h l)
  | _ => rw [shape?]; simp

theorem itemShapes?_eq_some_iff (l : List Value) (ss : List (List Nat)) :
    itemShapes? l = some ss ↔ List.Forall₂ (fun w t => shape? w = some t) l ss := by
  induction l generalizing ss with
  | nil => cases ss <;> simp [itemShapes?]
  | cons v rest ih =>
    rw [itemShapes?, List.forall₂_cons_left_iff]
    cases hv : v.shape? with
    | none => simp
    | some t =>
      cases hr : itemShapes? rest with
      | none =>
        simp only [reduceCtorEq, false_iff, not_exists, not_and]
        rintro t' ss' - h
        rw [← ih, hr] at h
        cases h
      | some ts =>
        simp only [Option.some.injEq, ← ih, hr]
        constructor
        · rintro rfl
          exact ⟨t, ts, rfl, rfl, rfl⟩
        · rintro ⟨-, -, rfl, rfl, rfl⟩
          rfl

theorem itemShapes?_of_forall {l : List Value} {t : List Nat}
    (h : ∀ w ∈ l, shape? w = some t) : itemShapes? l = some (List.replicate l.length t) := by
  rw [itemShapes?_eq_some_iff]
  induction l with
  | nil => exact .nil
  | cons v rest ih =>
    exact .cons (h v List.mem_cons_self) (ih fun w hw => h w (List.mem_cons_of_mem v hw))

/-- A list has a shape if it is empty or its members agree on one. -/
theorem shape?_list_eq_some_iff (l : List Value) (s : List Nat) : (list l).shape? = some s ↔
    l = [] ∧ s = [0] ∨ l ≠ [] ∧ ∃ t, s = l.length :: t ∧ ∀ w ∈ l, w.shape? = some t := by
  rw [shape?]
  constructor
  · intro h
    cases hs : itemShapes? l with
    | none => simp [hs] at h
    | some ss =>
      have hl := (itemShapes?_eq_some_iff l ss).mp hs
      cases ss with
      | nil =>
        simp only [hs, Option.some.injEq] at h
        cases hl
        exact .inl ⟨rfl, h.symm⟩
      | cons first rest =>
        simp only [hs] at h
        split at h
        case isFalse => cases h
        case isTrue hrest =>
          cases h
          have hall : ∀ t ∈ first :: rest, t = first := by simpa using hrest
          have hne : l ≠ [] := List.ne_nil_of_length_pos (by rw [hl.length_eq]; simp)
          refine .inr ⟨hne, first, by rw [hl.length_eq]; rfl, fun w hw => ?_⟩
          obtain ⟨i, hi, rfl⟩ := List.getElem_of_mem hw
          have hi' : i < (first :: rest).length := hl.length_eq ▸ hi
          have hfound := hl.get hi hi'
          rwa [List.get_eq_getElem, List.get_eq_getElem, hall _ (List.getElem_mem hi')] at hfound
  · rintro (⟨rfl, rfl⟩ | ⟨hne, t, rfl, hall⟩)
    · rfl
    · obtain ⟨v, rest, rfl⟩ := List.exists_cons_of_ne_nil hne
      rw [itemShapes?_of_forall hall]
      simp [List.replicate_succ]

theorem shape?_of_hasShape {s : List Nat} {v : Value} (h : v.HasShape s) :
    v.shape? = some (seen s) := by
  induction s generalizing v with
  | nil => exact shape?_of_not_list h
  | cons n s ih =>
    obtain ⟨l, rfl, rfl, hl⟩ := h
    rw [shape?_list_eq_some_iff]
    cases l with
    | nil => exact .inl ⟨rfl, rfl⟩
    | cons first rest => exact .inr ⟨List.cons_ne_nil _ _, seen s, rfl, fun w hw => ih (hl w hw)⟩

theorem hasShape_of_shape? {s : List Nat} {v : Value} (h : v.shape? = some s) : v.HasShape s := by
  induction s generalizing v with
  | nil =>
    rintro l rfl
    rcases (shape?_list_eq_some_iff l []).mp h with ⟨-, hs⟩ | ⟨-, t, hs, -⟩ <;> cases hs
  | cons n s ih =>
    cases v with
    | list l =>
      rcases (shape?_list_eq_some_iff l _).mp h with ⟨rfl, hs⟩ | ⟨-, t, hs, hall⟩
      · cases hs
        exact ⟨[], rfl, rfl, by simp⟩
      · cases hs
        exact ⟨l, rfl, rfl, fun w hw => ih (hall w hw)⟩
    | _ => simp [shape?] at h

theorem isSome_shape?_iff (v : Value) : v.shape?.isSome ↔ ∃ s, v.HasShape s := by
  rw [Option.isSome_iff_exists]
  constructor
  · rintro ⟨s, hs⟩
    exact ⟨s, hasShape_of_shape? hs⟩
  · rintro ⟨s, hs⟩
    exact ⟨_, shape?_of_hasShape hs⟩

/-! ## The leaves -/

theorem leaves_of_not_list {v : Value} (h : ∀ l, v ≠ list l) : v.leaves = [v] := by
  cases v with
  | list l => exact absurd rfl (h l)
  | _ => rw [leaves]; simp

theorem length_itemLeaves {l : List Value} {k : Nat} (h : ∀ w ∈ l, w.leaves.length = k) :
    (itemLeaves l).length = l.length * k := by
  induction l with
  | nil => simp [itemLeaves]
  | cons v rest ih =>
    rw [itemLeaves, List.length_append, h v List.mem_cons_self,
      ih fun w hw => h w (List.mem_cons_of_mem v hw), List.length_cons, Nat.succ_mul, Nat.add_comm]

/-- The leaves of one member stand together, behind those of the members before it. -/
theorem getElem?_itemLeaves {l : List Value} {k : Nat} (h : ∀ w ∈ l, w.leaves.length = k)
    {i j : Nat} (hj : j < k) :
    (itemLeaves l)[i * k + j]? = l[i]?.bind fun w => w.leaves[j]? := by
  induction l generalizing i with
  | nil => simp [itemLeaves]
  | cons v rest ih =>
    have hv := h v List.mem_cons_self
    have hrest := fun w hw => h w (List.mem_cons_of_mem v hw)
    rw [itemLeaves]
    cases i with
    | zero => rw [Nat.zero_mul, Nat.zero_add, List.getElem?_append_left (by omega)]; rfl
    | succ i =>
      have hk : (i + 1) * k + j = v.leaves.length + (i * k + j) := by rw [hv, Nat.succ_mul]; omega
      rw [hk, List.getElem?_append_right (by omega), Nat.add_sub_cancel_left, ih hrest]
      rfl

theorem length_leaves {s : List Nat} {v : Value} (h : v.HasShape s) : v.leaves.length = s.prod := by
  induction s generalizing v with
  | nil => rw [leaves_of_not_list h]; rfl
  | cons n s ih =>
    obtain ⟨l, rfl, rfl, hl⟩ := h
    rw [leaves, length_itemLeaves fun w hw => ih (hl w hw), List.prod_cons]

theorem rowMajor_lt {path shape : List Nat} (h : Inside path shape) :
    rowMajor shape path < shape.prod := by
  induction h with
  | nil => simp [rowMajor]
  | @cons i n path s hi _ ih =>
    rw [rowMajor, List.prod_cons]
    calc i * s.prod + rowMajor s path
      _ < i * s.prod + s.prod := Nat.add_lt_add_left ih _
      _ = (i + 1) * s.prod := (Nat.succ_mul _ _).symm
      _ ≤ n * s.prod := Nat.mul_le_mul_right _ hi

/-- Every rank is that of a path. -/
theorem exists_rowMajor {shape : List Nat} {k : Nat} (h : k < shape.prod) :
    ∃ path, Inside path shape ∧ rowMajor shape path = k := by
  induction shape generalizing k with
  | nil => exact ⟨[], .nil, by simp [rowMajor] at h ⊢; omega⟩
  | cons n s ih =>
    rw [List.prod_cons] at h
    have hpos : 0 < s.prod := Nat.pos_of_mul_pos_left (Nat.zero_lt_of_lt h)
    obtain ⟨path, hp, hk⟩ := ih (Nat.mod_lt k hpos)
    refine ⟨k / s.prod :: path, .cons ?_ hp, ?_⟩
    · exact Nat.div_lt_of_lt_mul (by rwa [Nat.mul_comm])
    · rw [rowMajor, hk, Nat.mul_comm, Nat.div_add_mod]

theorem getElem?_leaves {s path : List Nat} {v : Value} (h : v.HasShape s) (hp : Inside path s) :
    v.leaves[rowMajor s path]? = v.at? path := by
  induction hp generalizing v with
  | nil => rw [leaves_of_not_list h]; rfl
  | @cons i n path s _ hp ih =>
    obtain ⟨l, rfl, rfl, hl⟩ := h
    rw [leaves, rowMajor, getElem?_itemLeaves (fun w hw => length_leaves (hl w hw)) (rowMajor_lt hp),
      at?]
    cases hw : l[i]? with
    | none => rfl
    | some w => exact ih (hl w (List.mem_of_getElem? hw))

end Chip8.Value
