import Chip8.Proofs.Recognition
import Mathlib.Data.List.Nodup

/-! Drawing a sprite at once and pixel by pixel. `Sprite.mask` looks at every pixel of the screen and asks
whether the sprite covers it; `Sprite.blit` goes through the sprite and toggles what is set. A sprite is
neither wider nor taller than the screen, so no two of its pixels meet, not even around the edges; each
is toggled once, and both come to the same.

* `pixel_foldl_touch`, `flag_foldl_touch`: different cells toggled one after the other;
* `mem_cells`, `nodup_cells`: the cells of a sprite, each of them once;
* `mask_iff`: the mask holds these cells and no others;
* `execute_draw_eq_blit`: what a drawing instruction leaves is what the blit leaves. -/

namespace Chip8

/-- A pixel by its row and column. -/
abbrev Cell := Fin 32 × Fin 64

namespace Sprite

/-! ## Toggling cells -/

def touchCell (drawn : Screen × Bool) (p : Cell) : Screen × Bool :=
  touch drawn p.1 p.2

theorem pixel_touchCell_of_ne {p q : Cell} (h : p ≠ q) (drawn : Screen × Bool) :
    (touchCell drawn p).1.pixel q.1 q.2 = drawn.1.pixel q.1 q.2 := by
  have hne : ¬ (p.1 = q.1 ∧ p.2 = q.2) := fun he => h (Prod.ext he.1 he.2)
  rw [touchCell, touch, Screen.pixel_toggle, decide_eq_false hne, Bool.xor_false]

/-- Each of the cells is toggled once, and nothing else is; `among` says whether the pixel is one of
them. -/
theorem pixel_foldl_touch {cells : List Cell} (h : cells.Nodup) (drawn : Screen × Bool) {p : Cell}
    {among : Bool} (ha : among = true ↔ p ∈ cells) :
    (cells.foldl touchCell drawn).1.pixel p.1 p.2 = (drawn.1.pixel p.1 p.2 ^^ among) := by
  induction cells generalizing drawn among with
  | nil =>
    have hout : among = false := by simpa using ha
    rw [hout, Bool.xor_false]
    rfl
  | cons q rest ih =>
    obtain ⟨hq, hrest⟩ := List.nodup_cons.1 h
    rw [List.foldl_cons]
    by_cases he : q = p
    · subst he
      have hin : among = true := ha.2 List.mem_cons_self
      have hout : false = true ↔ q ∈ rest := by simp [hq]
      rw [ih hrest _ hout, hin, touchCell, touch, Screen.pixel_toggle]
      simp
    · have hrest' : among = true ↔ p ∈ rest := by
        rw [ha, List.mem_cons, or_iff_right (Ne.symm he)]
      rw [ih hrest _ hrest', pixel_touchCell_of_ne he]

/-- No cell is touched before its turn, so a toggle finds what was there at first. -/
theorem flag_foldl_touch {cells : List Cell} (h : cells.Nodup) (drawn : Screen × Bool) :
    (cells.foldl touchCell drawn).2 = true ↔
      drawn.2 = true ∨ ∃ p ∈ cells, drawn.1.pixel p.1 p.2 = true := by
  induction cells generalizing drawn with
  | nil => simp
  | cons q rest ih =>
    obtain ⟨hq, hrest⟩ := List.nodup_cons.1 h
    have hlit : (∃ p ∈ rest, (touchCell drawn q).1.pixel p.1 p.2 = true) ↔
        ∃ p ∈ rest, drawn.1.pixel p.1 p.2 = true := by
      refine exists_congr fun p => and_congr_right fun hp => ?_
      have hne : q ≠ p := fun he => hq (he ▸ hp)
      rw [pixel_touchCell_of_ne hne]
    have hflag : (touchCell drawn q).2 = true ↔ drawn.2 = true ∨ drawn.1.pixel q.1 q.2 = true := by
      rw [touchCell, touch, Bool.or_eq_true]
    rw [List.foldl_cons, ih hrest, hlit, hflag, or_assoc]
    simp only [List.mem_cons, exists_eq_or_imp]

/-! ## The cells of a sprite -/

/-- The cells that a blit toggles, in order. -/
def cells (memory : Memory) (address x y height : Nat) : List Cell :=
  (List.range height).flatMap fun j =>
    ((List.range 8).filter (bit (memory.read (address + j)))).map fun i =>
      (Screen.row (y + j), Screen.column (x + i))

/-- Some set pixel of the sprite lies on the cell. -/
def Covers (memory : Memory) (address x y height : Nat) (p : Cell) : Prop :=
  ∃ j < height, ∃ i < 8, bit (memory.read (address + j)) i = true ∧
    p = (Screen.row (y + j), Screen.column (x + i))

section Cells

variable {memory : Memory} {address x y height : Nat}

theorem blit_eq_foldl (screen : Screen) : blit memory screen address x y height =
    (cells memory address x y height).foldl touchCell (screen, false) := by
  rw [blit, cells, List.foldl_flatMap]
  congr
  funext drawn j
  rw [List.foldl_map, List.foldl_filter]
  rfl

theorem mem_cells (p : Cell) :
    p ∈ cells memory address x y height ↔ Covers memory address x y height p := by
  simp only [cells, Covers, List.mem_flatMap, List.mem_map, List.mem_filter, List.mem_range]
  constructor
  · rintro ⟨j, hj, i, ⟨hi, hb⟩, rfl⟩
    exact ⟨j, hj, i, hi, hb, rfl⟩
  · rintro ⟨j, hj, i, hi, hb, rfl⟩
    exact ⟨j, hj, i, ⟨hi, hb⟩, rfl⟩

theorem row_inj {j k : Nat} (hj : j < 32) (hk : k < 32)
    (h : Screen.row (y + j) = Screen.row (y + k)) : j = k := by
  have hv : (y + j) % 32 = (y + k) % 32 := congrArg Fin.val h
  omega

theorem column_inj {i k : Nat} (hi : i < 8) (hk : k < 8)
    (h : Screen.column (x + i) = Screen.column (x + k)) : i = k := by
  have hv : (x + i) % 64 = (x + k) % 64 := congrArg Fin.val h
  omega

theorem nodup_cells (h : height ≤ 32) : (cells memory address x y height).Nodup := by
  rw [cells, List.nodup_flatMap]
  constructor
  · intro j _
    refine (List.nodup_range.filter _).map_on ?_
    intro i hi k hk he
    have hi' := List.mem_range.1 (List.mem_of_mem_filter hi)
    have hk' := List.mem_range.1 (List.mem_of_mem_filter hk)
    exact column_inj hi' hk' (congrArg Prod.snd he)
  · refine List.nodup_range.imp_of_mem ?_
    intro j k hj hk hne p hp hq
    obtain ⟨i, -, rfl⟩ := List.mem_map.1 hp
    obtain ⟨l, -, he⟩ := List.mem_map.1 hq
    have hj' := List.mem_range.1 hj
    have hk' := List.mem_range.1 hk
    exact hne (row_inj (by omega) (by omega) (congrArg Prod.fst he).symm)

theorem row_behind (r : Fin 32) : Screen.row (y + behind 32 r.val y) = r := by
  apply Fin.ext
  have hr := r.isLt
  simp only [Screen.row, behind]
  omega

theorem column_behind (c : Fin 64) : Screen.column (x + behind 64 c.val x) = c := by
  apply Fin.ext
  have hc := c.isLt
  simp only [Screen.column, behind]
  omega

theorem behind_row {j : Nat} (hj : j < 32) : behind 32 (Screen.row (y + j)).val y = j := by
  simp only [Screen.row, behind]
  omega

theorem behind_column {i : Nat} (hi : i < 64) : behind 64 (Screen.column (x + i)).val x = i := by
  simp only [Screen.column, behind]
  omega

theorem byteAt_eq (j : Nat) : byteAt memory address j = memory.read (address + j) := by
  have ha : (((address : Int) + j) % 4096).toNat = (address + j) % 4096 := by omega
  rw [byteAt, ha, Memory.read_eq _ _ (Address.mod_lt _), Memory.read_eq _ _ (Address.mod_lt _)]
  simp only [Nat.mod_mod]

/-- The rows and columns that a mask looks at are those of the cells, taken backwards. -/
theorem mask_iff (h : height ≤ 32) (p : Cell) :
    (mask memory address x y height).pixel p.1 p.2 = true ↔ Covers memory address x y height p := by
  rw [mask, Screen.pixel_ofFn]
  simp only [Bool.and_eq_true, decide_eq_true_eq]
  constructor
  · rintro ⟨⟨hc, hr⟩, hb⟩
    refine ⟨behind 32 p.1.val y, by omega, behind 64 p.2.val x, hc, ?_, ?_⟩
    · rwa [byteAt_eq] at hb
    · rw [row_behind, column_behind]
  · rintro ⟨j, hj, i, hi, hb, rfl⟩
    rw [behind_row (by omega), behind_column (by omega), byteAt_eq]
    exact ⟨⟨hi, by omega⟩, hb⟩

theorem pixel_blit (h : height ≤ 32) (screen : Screen) (p : Cell) :
    (blit memory screen address x y height).1.pixel p.1 p.2 =
      (screen.pixel p.1 p.2 ^^ (mask memory address x y height).pixel p.1 p.2) := by
  rw [blit_eq_foldl]
  exact pixel_foldl_touch (nodup_cells h) _ ((mask_iff h p).trans (mem_cells p).symm)

theorem flag_blit (h : height ≤ 32) (screen : Screen) :
    (blit memory screen address x y height).2 = true ↔
      ∃ p, Covers memory address x y height p ∧ screen.pixel p.1 p.2 = true := by
  rw [blit_eq_foldl, flag_foldl_touch (nodup_cells h)]
  simp only [Bool.false_eq_true, false_or, mem_cells]

/-- The mask put over the screen at once, and whether the two meet. -/
theorem blit_eq (h : height ≤ 32) (screen : Screen) : blit memory screen address x y height =
    (screen.xor (mask memory address x y height), screen.meets (mask memory address x y height)) := by
  refine Prod.ext ?_ ?_
  · ext r c
    rw [Screen.pixel_xor]
    exact pixel_blit h screen (r, c)
  · rw [Bool.eq_iff_iff, flag_blit h, Screen.meets_iff, Prod.exists]
    refine exists_congr fun r => exists_congr fun c => ?_
    rw [← mask_iff h, and_comm]

end Cells

end Sprite

/-! ## The instruction -/

namespace Machine

/-- Drawing as it is told: the coordinates, the index and the memory are read first, then the set pixels
of the sprite are toggled one by one. -/
def blit (m : Machine) (x y height : Register) : Screen × Bool :=
  Sprite.blit m.memory m.screen m.index.toNat (m.register x).toNat (m.register y).toNat height.val

/-- A set pixel of the sprite lies on this pixel of the screen. -/
def Covers (m : Machine) (x y height : Register) (p : Cell) : Prop :=
  Sprite.Covers m.memory m.index.toNat (m.register x).toNat (m.register y).toNat height.val p

theorem height_le (height : Register) : height.val ≤ 32 := by
  have := height.isLt
  omega

theorem drawSprite_eq_blit (m : Machine) (x y height : Register) : m.drawSprite x y height =
    { m.setRegister flagRegister (Operation.bit (m.blit x y height).2) with
      screen := (m.blit x y height).1
      redraw := true } := by
  rw [blit, Sprite.blit_eq (height_le height), drawSprite]

theorem perform_draw (m : Machine) (x y height : Register) : m.perform (.draw x y height) =
    { m.setRegister flagRegister (Operation.bit (m.blit x y height).2) with
      screen := (m.blit x y height).1
      redraw := true
      pc := m.pc + 2 } := by
  rw [perform, drawSprite_eq_blit]
  rfl

/-- Whatever the word was cut from, and whichever registers it names, `VF` too: the drawing instruction
does what the blit does. The blit toggles the pixels that the sprite covers and no others, and reports
whether one of them was lit. -/
theorem execute_draw_eq_blit (m : Machine) (raw : Int) (x y height : Register) :
    m.execute (.ofNat raw (Instruction.draw x y height).encode) =
        { m.setRegister flagRegister (Operation.bit (m.blit x y height).2) with
          screen := (m.blit x y height).1
          redraw := true
          fault := none
          pc := m.pc + 2 } ∧
      (∀ p, (m.blit x y height).1.pixel p.1 p.2 ≠ m.screen.pixel p.1 p.2 ↔ m.Covers x y height p) ∧
      ((m.blit x y height).2 = true ↔ ∃ p, m.Covers x y height p ∧ m.screen.pixel p.1 p.2 = true) := by
  have hh := height_le height
  have hxor : ∀ lit covered : Bool, (lit ^^ covered) ≠ lit ↔ covered = true := by decide
  refine ⟨?_, fun p => ?_, Sprite.flag_blit hh _⟩
  · rw [execute_of_reads m (Instruction.ofFields?_encode raw _), perform_draw]
    rfl
  · rw [blit, Sprite.pixel_blit hh, Covers, ← Sprite.mask_iff hh]
    exact hxor _ _

end Machine

end Chip8
