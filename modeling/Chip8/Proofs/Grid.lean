import Chip8.Picture.Sheet
import Mathlib.Order.Bounds.Defs

/-! The grid of a sheet, in numbers: as few columns as make a square of the cells, as few rows as hold
them, and where each cell lies.

* `isLeast_columns`, `isLeast_rows`: how many of them there are;
* `origin_add_le`: a cell ends where the sheet ends or before it;
* `origin_inj`: cells do not overlap;
* `Grid.top_add_le`, `Grid.left_add_le`, `Grid.inCell_unique`: the same for cells by their index. -/

namespace Chip8.Sheet

/-! ## Columns and rows -/

theorem isLeast_columns (count : Nat) : IsLeast {c | count ≤ c * c} (columns count) := by
  have hsome : ((List.range (count + 1)).find? fun c => count ≤ c * c).isSome = true := by
    rw [List.find?_isSome]
    exact ⟨count, List.mem_range.2 (Nat.lt_succ_self count), decide_eq_true (Nat.le_mul_self count)⟩
  obtain ⟨c, hc⟩ := Option.isSome_iff_exists.1 hsome
  have hcolumns : columns count = c := by rw [columns, ceilRoot, hc, Option.getD_some]
  obtain ⟨hsquare, -, hfirst⟩ := List.find?_range_eq_some.1 hc
  have hholds : count ≤ c * c := of_decide_eq_true hsquare
  rw [hcolumns]
  refine ⟨hholds, fun d (hd : count ≤ d * d) => Nat.not_lt.1 fun hlt => ?_⟩
  have hnot := hfirst d hlt
  rw [decide_eq_true hd] at hnot
  cases hnot

theorem columns_pos {count : Nat} (h : 1 ≤ count) : 1 ≤ columns count := by
  have hsquare : count ≤ columns count * columns count := (isLeast_columns count).1
  refine Nat.pos_of_ne_zero fun hzero => ?_
  rw [hzero] at hsquare
  omega

theorem isLeast_rows {count : Nat} (h : 1 ≤ count) :
    IsLeast {r | count ≤ r * columns count} (rows count) := by
  have hpos := columns_pos h
  constructor
  · have hlt := Nat.lt_mul_div_succ (count + columns count - 1) hpos
    rw [Nat.mul_comm, Nat.succ_mul] at hlt
    show count ≤ (count + columns count - 1) / columns count * columns count
    omega
  · intro r (hr : count ≤ r * columns count)
    rw [rows, ← Nat.lt_succ_iff, Nat.div_lt_iff_lt_mul hpos, Nat.succ_mul]
    omega

theorem rows_pos {count : Nat} (h : 1 ≤ count) : 1 ≤ rows count := by
  have hfits : count ≤ rows count * columns count := (isLeast_rows h).1
  refine Nat.pos_of_ne_zero fun hzero => ?_
  rw [hzero] at hfits
  omega

theorem row_lt {count k : Nat} (hk : k < count) : k / columns count < rows count := by
  have hfits : count ≤ rows count * columns count := (isLeast_rows (by omega)).1
  exact (Nat.div_lt_iff_lt_mul (columns_pos (by omega))).2 (by omega)

theorem column_lt {count k : Nat} (hk : k < count) : k % columns count < columns count :=
  Nat.mod_lt _ (columns_pos (by omega))

/-! ## One direction -/

/-- Cells of one size in a line with gaps between them: each of them ends within the line. -/
theorem origin_add_le {q cells : Nat} (h : q < cells) (size gap : Nat) :
    q * (size + gap) + size ≤ cells * size + (cells - 1) * gap := by
  have hsize : (q + 1) * size ≤ cells * size := Nat.mul_le_mul_right size h
  have hgap : q * gap ≤ (cells - 1) * gap := Nat.mul_le_mul_right gap (by omega)
  rw [Nat.succ_mul] at hsize
  rw [Nat.mul_add]
  omega

/-- Where a cell of the line starts, and how far into it a place lies, is told by the place. -/
theorem origin_inj {q q' i i' size gap : Nat} (hi : i < size) (hi' : i' < size)
    (h : q * (size + gap) + i = q' * (size + gap) + i') : q = q' ∧ i = i' := by
  have hdiv : ∀ p j, j < size → (p * (size + gap) + j) / (size + gap) = p := by
    intro p j hj
    rw [Nat.mul_comm, Nat.mul_add_div (by omega), Nat.div_eq_of_lt (by omega), Nat.add_zero]
  have hq : q = q' := by rw [← hdiv q i hi, h, hdiv q' i' hi']
  subst hq
  exact ⟨rfl, Nat.add_left_cancel h⟩

theorem extent_eq {cells : Nat} (h : 1 ≤ cells) (size gap : Nat) :
    extent cells size gap = ((cells * size + (cells - 1) * gap : Nat) : Int) := by
  rw [extent, Int.natCast_add, Int.natCast_mul, Int.natCast_mul, Int.natCast_sub h]
  rfl

/-! ## Cells -/

/-- The measures of a sheet: how many cells it has, how large they are and how far apart. -/
structure Grid where
  count : Nat
  cellHeight : Nat
  cellWidth : Nat
  gap : Nat

namespace Grid

variable (g : Grid)

def height : Nat := rows g.count * g.cellHeight + (rows g.count - 1) * g.gap

def width : Nat := columns g.count * g.cellWidth + (columns g.count - 1) * g.gap

/-- Cells are counted row by row. -/
def top (k : Nat) : Nat := k / columns g.count * (g.cellHeight + g.gap)

def left (k : Nat) : Nat := k % columns g.count * (g.cellWidth + g.gap)

/-- The pixel in row `i` and column `j` of the sheet lies in cell `k`. -/
def InCell (k i j : Nat) : Prop :=
  (g.top k ≤ i ∧ i < g.top k + g.cellHeight) ∧ g.left k ≤ j ∧ j < g.left k + g.cellWidth

variable {g} {k : Nat}

theorem top_add_le (hk : k < g.count) : g.top k + g.cellHeight ≤ g.height :=
  origin_add_le (row_lt hk) g.cellHeight g.gap

theorem left_add_le (hk : k < g.count) : g.left k + g.cellWidth ≤ g.width :=
  origin_add_le (column_lt hk) g.cellWidth g.gap

/-- The cell in row `r` and column `c` of the grid. -/
theorem corner_index {r c : Nat} (hc : c < columns g.count) :
    g.top (r * columns g.count + c) = r * (g.cellHeight + g.gap) ∧
      g.left (r * columns g.count + c) = c * (g.cellWidth + g.gap) := by
  have hdiv : (r * columns g.count + c) / columns g.count = r := by
    rw [Nat.mul_comm, Nat.mul_add_div (by omega), Nat.div_eq_of_lt hc, Nat.add_zero]
  have hmod : (r * columns g.count + c) % columns g.count = c := by
    rw [Nat.mul_comm, Nat.mul_add_mod, Nat.mod_eq_of_lt hc]
  exact ⟨by rw [top, hdiv], by rw [left, hmod]⟩

theorem inCell_add {i j : Nat} (hi : i < g.cellHeight) (hj : j < g.cellWidth) :
    g.InCell k (g.top k + i) (g.left k + j) := by
  refine ⟨⟨?_, ?_⟩, ?_, ?_⟩ <;> omega

theorem inCell_unique {l i j : Nat} (h : g.InCell k i j) (h' : g.InCell l i j) : k = l := by
  obtain ⟨⟨ht, hb⟩, hl, hr⟩ := h
  obtain ⟨⟨ht', hb'⟩, hl', hr'⟩ := h'
  have hrow : k / columns g.count = l / columns g.count := by
    have hi : i - g.top k < g.cellHeight := by omega
    have hi' : i - g.top l < g.cellHeight := by omega
    have he : g.top k + (i - g.top k) = g.top l + (i - g.top l) := by omega
    exact (origin_inj hi hi' he).1
  have hcolumn : k % columns g.count = l % columns g.count := by
    have hj : j - g.left k < g.cellWidth := by omega
    have hj' : j - g.left l < g.cellWidth := by omega
    have he : g.left k + (j - g.left k) = g.left l + (j - g.left l) := by omega
    exact (origin_inj hj hj' he).1
  rw [← Nat.div_add_mod k (columns g.count), hrow, hcolumn, Nat.div_add_mod]

end Grid

end Chip8.Sheet
