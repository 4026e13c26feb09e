/-! The screen: 32 rows of 64 pixels, the first row on top and the first pixel of a row at the left. -/

namespace Chip8

structure Screen where
  rows : Vector (Vector Bool 64) 32
deriving DecidableEq, Repr

namespace Screen

theorem row_lt (n : Nat) : n % 32 < 32 := Nat.mod_lt n (by decide)

theorem column_lt (n : Nat) : n % 64 < 64 := Nat.mod_lt n (by decide)

/-- Rows and columns count around the edges. -/
def row (n : Nat) : Fin 32 := ⟨n % 32, row_lt n⟩

def column (n : Nat) : Fin 64 := ⟨n % 64, column_lt n⟩

def ofFn (lit : Fin 32 → Fin 64 → Bool) : Screen :=
  ⟨Vector.ofFn fun r => Vector.ofFn fun c => lit r c⟩

def pixel (s : Screen) (r : Fin 32) (c : Fin 64) : Bool :=
  (s.rows.get r).get c

def blank : Screen :=
  ⟨Vector.replicate 32 (Vector.replicate 64 false)⟩

def xor (s t : Screen) : Screen :=
  ofFn fun r c => s.pixel r c ^^ t.pixel r c

/-- Whether some pixel is lit on both. -/
def meets (s t : Screen) : Bool :=
  (List.finRange 32).any fun r => (List.finRange 64).any fun c => s.pixel r c && t.pixel r c

def toggle (s : Screen) (r : Fin 32) (c : Fin 64) : Screen :=
  ⟨s.rows.set r (s.rows[r].set c (!s.pixel r c))⟩

def litCount (s : Screen) : Nat :=
  (s.rows.toList.map fun row => row.toList.count true).foldr (· + ·) 0

/-- One line for each row, with a mark for each pixel. -/
def text (s : Screen) : String :=
  String.join (s.rows.toList.map fun row =>
    String.ofList (row.toList.map fun lit => if lit then '#' else '.') ++ "\n")

@[ext]
theorem ext {s t : Screen} (h : ∀ r c, s.pixel r c = t.pixel r c) : s = t := by
  cases s with
  | mk a =>
  cases t with
  | mk b =>
  congr
  ext i hi j hj
  exact h ⟨i, hi⟩ ⟨j, hj⟩

theorem pixel_eq (s : Screen) (r : Fin 32) (c : Fin 64) : s.pixel r c = s.rows[r.val][c.val] := rfl

@[simp]
theorem pixel_ofFn (lit : Fin 32 → Fin 64 → Bool) (r : Fin 32) (c : Fin 64) :
    (ofFn lit).pixel r c = lit r c := by
  simp [pixel_eq, ofFn]

@[simp]
theorem pixel_blank (r : Fin 32) (c : Fin 64) : blank.pixel r c = false := by
  simp [pixel_eq, blank]

@[simp]
theorem pixel_xor (s t : Screen) (r : Fin 32) (c : Fin 64) :
    (s.xor t).pixel r c = (s.pixel r c ^^ t.pixel r c) := by
  simp [xor]

theorem meets_iff (s t : Screen) :
    s.meets t = true ↔ ∃ r c, s.pixel r c = true ∧ t.pixel r c = true := by
  simp [meets]

theorem pixel_toggle (s : Screen) (r r' : Fin 32) (c c' : Fin 64) :
    (s.toggle r c).pixel r' c' = (s.pixel r' c' ^^ decide (r = r' ∧ c = c')) := by
  simp only [pixel_eq, toggle, Fin.getElem_fin, Vector.getElem_set]
  by_cases hr : r = r'
  · subst hr
    by_cases hc : c = c'
    · simp [hc]
    · have : c.val ≠ c'.val := fun h => hc (Fin.ext h)
      simp [hc, this]
  · have : r.val ≠ r'.val := fun h => hr (Fin.ext h)
    simp [hr, this]

end Screen

end Chip8
