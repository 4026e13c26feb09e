import Chip8.Proofs.Grid

/-! A sheet shows every bitmap once and nothing else. The bitmaps are painted one after the other, each
into the cell of its index; the cells do not overlap, so what is painted stays, and what no cell covers
stays transparent.

* `Shows.paint`: what one bitmap adds to a sheet;
* `fill_shows`: what a list of bitmaps adds to it, by induction on the list;
* `render_tiles`: the sheet of a batch, in rows and columns. -/

namespace Chip8

/-- A lit cell of a bitmap holds the second position of the palette, counted from either end. -/
def Bitmap.Lit (b : Bitmap) (i j : Nat) : Prop := b.cell i j = 1 ∨ b.cell i j = -1

instance (b : Bitmap) (i j : Nat) : Decidable (b.Lit i j) := inferInstanceAs (Decidable (_ ∨ _))

namespace Sheet

/-- An enlarged bitmap at one of its pixels, in opaque colours. -/
def shade (scheme : Scheme) (scale : Nat) (b : Bitmap) (i j : Nat) : Colour :=
  solid (if b.Lit (i / scale) (j / scale) then scheme.lit else scheme.unlit)

def transparent : Colour := [0, 0, 0, 0]

section Painting

variable {g : Grid} {scheme : Scheme} {scale k : Nat} {bitmaps : List Bitmap} {sheet block : Picture}
  {b : Bitmap}

/-- Each of the bitmaps shows in the cell of its index, and everywhere else the sheet is transparent. -/
structure Shows (g : Grid) (scheme : Scheme) (scale : Nat) (bitmaps : List Bitmap) (sheet : Picture) :
    Prop where
  height : sheet.height = g.height
  width : sheet.width = g.width
  channels : sheet.channels = 4
  shaded : ∀ k b, bitmaps[k]? = some b → ∀ i j, g.InCell k i j →
    sheet.pixel i j = shade scheme scale b (i - g.top k) (j - g.left k)
  clear : ∀ i j, (∀ k < bitmaps.length, ¬ g.InCell k i j) → sheet.pixel i j = transparent

/-- A block of the size of a cell. -/
structure IsCell (g : Grid) (scheme : Scheme) (scale : Nat) (b : Bitmap) (block : Picture) : Prop where
  height : block.height = g.cellHeight
  width : block.width = g.cellWidth
  shaded : ∀ i j, solid (block.pixel i j) = shade scheme scale b i j

theorem bound_of_le {n size : Nat} (h : n ≤ size) : bound size (n : Int) = n := by
  rw [bound, if_neg (by omega), Int.toNat_natCast, Nat.min_eq_left h]

theorem stretch_of_lt {size i : Nat} (h : i < size) : stretch size i = i := by
  rw [stretch]
  split <;> omega

/-- The cell that a bitmap is put into has room for it. -/
theorem place_eq (hk : k < g.count) (hs : Shows g scheme scale bitmaps sheet)
    (hb : IsCell g scheme scale b block) :
    place sheet block (g.top k) (g.left k) (g.top k + g.cellHeight) (g.left k + g.cellWidth) =
      .ok (sheet.paint (g.top k) (g.left k) g.cellHeight g.cellWidth fun i j =>
        solid (block.pixel (stretch g.cellHeight i) (stretch g.cellWidth j))) := by
  have hend := Grid.top_add_le hk
  have hright := Grid.left_add_le hk
  have htop : bound g.height (g.top k) = g.top k := bound_of_le (by omega)
  have hleft : bound g.width (g.left k) = g.left k := bound_of_le (by omega)
  have hheight : bound g.height ((g.top k : Int) + g.cellHeight) - g.top k = g.cellHeight := by
    rw [← Int.natCast_add, bound_of_le hend, Nat.add_sub_cancel_left]
  have hwidth : bound g.width ((g.left k : Int) + g.cellWidth) - g.left k = g.cellWidth := by
    rw [← Int.natCast_add, bound_of_le hright, Nat.add_sub_cancel_left]
  rw [place, hs.height, hs.width, htop, hleft, hheight, hwidth, hb.height, hb.width]
  exact if_pos ⟨.inl rfl, .inl rfl⟩

/-- The next bitmap is put into a cell that the ones before it have left alone. -/
theorem Shows.paint (hs : Shows g scheme scale bitmaps sheet) (hb : IsCell g scheme scale b block) :
    Shows g scheme scale (bitmaps ++ [b])
      (sheet.paint (g.top bitmaps.length) (g.left bitmaps.length) g.cellHeight g.cellWidth
        fun i j => solid (block.pixel (stretch g.cellHeight i) (stretch g.cellWidth j))) where
  height := hs.height
  width := hs.width
  channels := hs.channels
  shaded k a ha i j hin := by
    by_cases hlast : g.InCell bitmaps.length i j
    · have hk : k = bitmaps.length := Grid.inCell_unique hin hlast
      subst hk
      rw [List.getElem?_concat_length] at ha
      cases ha
      obtain ⟨⟨ht, hbottom⟩, hl, hr⟩ := hlast
      refine (if_pos hin).trans ?_
      rw [stretch_of_lt (by omega), stretch_of_lt (by omega)]
      exact hb.shaded _ _
    · have hk : k ≠ bitmaps.length := fun he => hlast (he ▸ hin)
      have hlt : k < bitmaps.length := by
        have := (List.getElem?_eq_some_iff.1 ha).1
        rw [List.length_append, List.length_singleton] at this
        omega
      rw [List.getElem?_append_left hlt] at ha
      exact (if_neg hlast).trans (hs.shaded k a ha i j hin)
  clear i j hout := by
    rw [List.length_append, List.length_singleton] at hout
    refine (if_neg (hout _ (Nat.lt_succ_self _))).trans (hs.clear i j fun k hk => ?_)
    exact hout k (Nat.lt_succ_of_lt hk)

/-- Bitmap by bitmap the sheet is filled, as long as there are cells left. -/
theorem fill_shows {draw : Bitmap → Except Error Picture} {rest : List Bitmap}
    (hdraw : ∀ b ∈ rest, ∃ block, draw b = .ok block ∧ IsCell g scheme scale b block)
    (hroom : bitmaps.length + rest.length ≤ g.count) (hs : Shows g scheme scale bitmaps sheet) :
    ∃ filled, fill sheet (columns g.count) g.cellHeight g.cellWidth g.gap draw bitmaps.length rest =
      .ok filled ∧ Shows g scheme scale (bitmaps ++ rest) filled := by
  induction rest generalizing bitmaps sheet with
  | nil => exact ⟨sheet, rfl, by rwa [List.append_nil]⟩
  | cons b rest ih =>
    rw [List.length_cons] at hroom
    obtain ⟨block, hblock, hcell⟩ := hdraw b List.mem_cons_self
    have hplace := place_eq (by omega : bitmaps.length < g.count) hs hcell
    have hnext := hs.paint hcell
    obtain ⟨filled, hfilled, hshows⟩ := ih (fun a ha => hdraw a (List.mem_cons_of_mem _ ha))
      (by rw [List.length_append, List.length_singleton]; omega) hnext
    refine ⟨filled, ?_, by rwa [List.append_assoc, List.singleton_append] at hshows⟩
    rw [List.length_append, List.length_singleton] at hfilled
    have htop : ((bitmaps.length / columns g.count : Nat) : Int) * (g.cellHeight + g.gap) =
        g.top bitmaps.length := by
      rw [Grid.top, Int.natCast_mul, Int.natCast_add]
    have hleft : ((bitmaps.length % columns g.count : Nat) : Int) * (g.cellWidth + g.gap) =
        g.left bitmaps.length := by
      rw [Grid.left, Int.natCast_mul, Int.natCast_add]
    rw [fill, hblock]
    simp only [bind, Except.bind, htop, hleft, hplace]
    exact hfilled

end Painting

/-! ## The sheet of a batch -/

theorem blank_eq {g : Grid} (h : 1 ≤ g.count) : blank g.count g.cellHeight g.cellWidth g.gap =
    .ok (.clear g.height g.width transparent) := by
  have hheight : extent (rows g.count) g.cellHeight g.gap = (g.height : Int) :=
    extent_eq (rows_pos h) _ _
  have hwidth : extent (columns g.count) g.cellWidth g.gap = (g.width : Int) :=
    extent_eq (columns_pos h) _ _
  rw [blank, hheight, hwidth]
  exact if_neg (by omega)

theorem shows_clear (g : Grid) (scheme : Scheme) (scale : Nat) :
    Shows g scheme scale [] (.clear g.height g.width transparent) where
  height := rfl
  width := rfl
  channels := rfl
  shaded k b hb := by rw [List.getElem?_nil] at hb; cases hb
  clear _ _ _ := rfl

/-- The grid of `count` bitmaps of one size. -/
def gridOf (count h w scale gap : Nat) : Grid where
  count := count
  cellHeight := h * scale
  cellWidth := w * scale
  gap := gap

theorem isCell_render {count h w scale gap : Nat} (scheme : Scheme) (hscale : 1 ≤ scale) {b : Bitmap}
    (hh : b.height = h) (hw : b.width = w) (hb : b.inPalette = true) :
    ∃ block, Picture.render (Argument.scale (.integer scale)) (.ok (scheme.lit, scheme.unlit))
        (.ok b) = .ok block ∧ IsCell (gridOf count h w scale gap) scheme scale b block := by
  have hs : Argument.scale (.integer scale) = .ok scale := by
    show (if (scale : Int) < 1 then _ else _) = _
    rw [if_neg (by omega), Int.toNat_natCast]
  refine ⟨b.enlarged scale scheme.lit scheme.unlit, ?_, ?_⟩
  · simp only [Picture.render, hs, hb, bind, Except.bind, if_pos]
  · exact ⟨congrArg (· * scale) hh, congrArg (· * scale) hw, fun _ _ => rfl⟩

theorem render_eq_fill {bitmaps : List Bitmap} {h w scale gap : Nat} {name : String}
    {scheme : Scheme} (hne : bitmaps ≠ []) (hsize : ∀ b ∈ bitmaps, b.height = h ∧ b.width = w)
    (hname : Scheme.ofName? name = some scheme) :
    render (.ok bitmaps) (.integer scale) (.text name) (.integer gap) =
      let g := gridOf bitmaps.length h w scale gap
      (blank g.count g.cellHeight g.cellWidth g.gap).bind fun sheet =>
        fill sheet (columns g.count) g.cellHeight g.cellWidth g.gap
          (fun b => Picture.render (Argument.scale (.integer scale)) (.ok (scheme.lit, scheme.unlit))
            (.ok b)) 0 bitmaps := by
  have hscheme : Argument.scheme (.text name) = .ok scheme := by
    simp only [Argument.scheme, hname]
  cases bitmaps with
  | nil => exact absurd rfl hne
  | cons first rest =>
    obtain ⟨hh, hw⟩ := hsize first List.mem_cons_self
    have hall : rest.all (fun b => b.height = h ∧ b.width = w) = true := by
      rw [List.all_eq_true]
      exact fun b hb => decide_eq_true (hsize b (List.mem_cons_of_mem _ hb))
    simp only [render, hscheme, hall, bind, Except.bind, if_pos, Argument.integer, Value.toInt?, hh, hw,
      gridOf, Int.natCast_mul, List.length_cons]

/-- The pixel in row `i` and column `j` of a sheet lies in the cell in row `r` and column `c` of the
grid, `y` pixels below its top and `x` pixels from its left edge. -/
structure Spot (h w scale gap r c y x i j : Nat) : Prop where
  row : i = r * (h * scale + gap) + y
  column : j = c * (w * scale + gap) + x
  below : y < h * scale
  beside : x < w * scale

/-- The sheet shows each bitmap once and nothing else. -/
structure Tiles (bitmaps : List Bitmap) (h w scale gap : Nat) (scheme : Scheme) (sheet : Picture) :
    Prop where
  columns : IsLeast {c | bitmaps.length ≤ c * c} (columns bitmaps.length)
  rows : IsLeast {r | bitmaps.length ≤ r * Sheet.columns bitmaps.length} (rows bitmaps.length)
  height : sheet.height =
    Sheet.rows bitmaps.length * (h * scale) + (Sheet.rows bitmaps.length - 1) * gap
  width : sheet.width =
    Sheet.columns bitmaps.length * (w * scale) + (Sheet.columns bitmaps.length - 1) * gap
  channels : sheet.channels = 4
  drawn : ∀ r c b, c < Sheet.columns bitmaps.length →
    bitmaps[r * Sheet.columns bitmaps.length + c]? = some b →
    ∀ y x i j, Spot h w scale gap r c y x i j →
      (i < sheet.height ∧ j < sheet.width) ∧ sheet.pixel i j = shade scheme scale b y x
  clear : ∀ i j,
    (∀ r c y x, c < Sheet.columns bitmaps.length →
      r * Sheet.columns bitmaps.length + c < bitmaps.length → ¬ Spot h w scale gap r c y x i j) →
    sheet.pixel i j = transparent
  apart : ∀ r c y x r' c' y' x' i j, Spot h w scale gap r c y x i j →
    Spot h w scale gap r' c' y' x' i j → r = r' ∧ c = c' ∧ y = y' ∧ x = x'
  recovered : ∀ r c b, c < Sheet.columns bitmaps.length →
    bitmaps[r * Sheet.columns bitmaps.length + c]? = some b → ∀ y < h, ∀ x < w,
      (sheet.pixel (r * (h * scale + gap) + y * scale) (c * (w * scale + gap) + x * scale) =
        solid scheme.lit ↔ b.Lit y x)

section Cells

variable {bitmaps : List Bitmap} {h w scale gap count r c y x i j : Nat} {scheme : Scheme}
  {sheet : Picture}

theorem corner_gridOf (hc : c < columns count) :
    (gridOf count h w scale gap).top (r * columns count + c) = r * (h * scale + gap) ∧
      (gridOf count h w scale gap).left (r * columns count + c) = c * (w * scale + gap) :=
  Grid.corner_index (g := gridOf count h w scale gap) hc

theorem Spot.inCell (hs : Spot h w scale gap r c y x i j) (hc : c < columns count) :
    (gridOf count h w scale gap).InCell (r * columns count + c) i j := by
  obtain ⟨rfl, rfl, hy, hx⟩ := hs
  obtain ⟨htop, hleft⟩ := corner_gridOf hc
  rw [← htop, ← hleft]
  exact Grid.inCell_add hy hx

theorem spot_of_inCell {k : Nat} (hin : (gridOf count h w scale gap).InCell k i j) :
    Spot h w scale gap (k / columns count) (k % columns count)
      (i - (gridOf count h w scale gap).top k) (j - (gridOf count h w scale gap).left k) i j := by
  obtain ⟨⟨ht, hb⟩, hl, hr⟩ := hin
  refine ⟨?_, ?_, Nat.sub_lt_left_of_lt_add ht hb, Nat.sub_lt_left_of_lt_add hl hr⟩
  · exact (Nat.add_sub_cancel' ht).symm
  · exact (Nat.add_sub_cancel' hl).symm

theorem Spot.unique {r' c' y' x' : Nat} (hs : Spot h w scale gap r c y x i j)
    (hs' : Spot h w scale gap r' c' y' x' i j) : r = r' ∧ c = c' ∧ y = y' ∧ x = x' := by
  obtain ⟨hr, hy⟩ := origin_inj hs.below hs'.below (hs.row.symm.trans hs'.row)
  obtain ⟨hc, hx⟩ := origin_inj hs.beside hs'.beside (hs.column.symm.trans hs'.column)
  exact ⟨hr, hc, hy, hx⟩

theorem Shows.drawn
    (hshows : Shows (gridOf bitmaps.length h w scale gap) scheme scale bitmaps sheet)
    {b : Bitmap} (hc : c < columns bitmaps.length)
    (hb : bitmaps[r * columns bitmaps.length + c]? = some b) (hs : Spot h w scale gap r c y x i j) :
    (i < sheet.height ∧ j < sheet.width) ∧ sheet.pixel i j = shade scheme scale b y x := by
  have hin := hs.inCell hc
  have hk := (List.getElem?_eq_some_iff.1 hb).1
  have hend := Grid.top_add_le (g := gridOf bitmaps.length h w scale gap) hk
  have hright := Grid.left_add_le (g := gridOf bitmaps.length h w scale gap) hk
  obtain ⟨htop, hleft⟩ := corner_gridOf (h := h) (w := w) (r := r) hc
  constructor
  · rw [hshows.height, hshows.width]
    exact ⟨Nat.lt_of_lt_of_le hin.1.2 hend, Nat.lt_of_lt_of_le hin.2.2 hright⟩
  · rw [hshows.shaded _ b hb i j hin, htop, hleft, hs.row, hs.column, Nat.add_sub_cancel_left,
      Nat.add_sub_cancel_left]

end Cells

/-- The two colours of a scheme can be told apart. -/
theorem lit_ne_unlit {name : String} {scheme : Scheme} (h : Scheme.ofName? name = some scheme) :
    solid scheme.lit ≠ solid scheme.unlit := by
  have hall : ∀ s ∈ Scheme.all, s.lit ≠ s.unlit := by decide
  exact fun he => hall scheme (List.mem_of_find?_eq_some h) (List.append_cancel_right he)

theorem solid_shade_iff {name : String} {scheme : Scheme} {scale : Nat}
    (hname : Scheme.ofName? name = some scheme) (hscale : 1 ≤ scale) (b : Bitmap) (y x : Nat) :
    shade scheme scale b (y * scale) (x * scale) = solid scheme.lit ↔ b.Lit y x := by
  rw [shade, Nat.mul_div_cancel _ hscale, Nat.mul_div_cancel _ hscale]
  constructor
  · intro he
    by_cases hlit : b.Lit y x
    · exact hlit
    · rw [if_neg hlit] at he
      exact absurd he.symm (lit_ne_unlit hname)
  · intro hlit
    rw [if_pos hlit]

theorem tiles_of_shows {bitmaps : List Bitmap} {h w scale gap : Nat} {name : String} {scheme : Scheme}
    {sheet : Picture} (hne : bitmaps ≠ []) (hscale : 1 ≤ scale)
    (hname : Scheme.ofName? name = some scheme)
    (hshows : Shows (gridOf bitmaps.length h w scale gap) scheme scale bitmaps sheet) :
    Tiles bitmaps h w scale gap scheme sheet where
  columns := isLeast_columns _
  rows := isLeast_rows (List.length_pos_iff.2 hne)
  height := hshows.height
  width := hshows.width
  channels := hshows.channels
  drawn _ _ _ hc hb _ _ _ _ hs := hshows.drawn hc hb hs
  clear i j hout := by
    refine hshows.clear i j fun k hk hin => ?_
    refine hout _ _ _ _ (column_lt hk) ?_ (spot_of_inCell hin)
    rwa [Nat.mul_comm, Nat.div_add_mod]
  apart _ _ _ _ _ _ _ _ _ _ hs hs' := hs.unique hs'
  recovered r c b hc hb y hy x hx := by
    have hs : Spot h w scale gap r c (y * scale) (x * scale) _ _ :=
      ⟨rfl, rfl, (Nat.mul_lt_mul_right hscale).2 hy, (Nat.mul_lt_mul_right hscale).2 hx⟩
    rw [(hshows.drawn hc hb hs).2]
    exact solid_shade_iff hname hscale b y x

/-- The sheet of a batch of bitmaps of one size, in a scheme with a name, at any scale and with any
gap. -/
theorem render_tiles {bitmaps : List Bitmap} {h w scale : Nat} (gap : Nat) {name : String}
    {scheme : Scheme} (hne : bitmaps ≠ []) (hsize : ∀ b ∈ bitmaps, b.height = h ∧ b.width = w)
    (hpalette : ∀ b ∈ bitmaps, b.inPalette = true) (hscale : 1 ≤ scale)
    (hname : Scheme.ofName? name = some scheme) :
    ∃ sheet, render (.ok bitmaps) (.integer scale) (.text name) (.integer gap) = .ok sheet ∧
      Tiles bitmaps h w scale gap scheme sheet := by
  have hdraw : ∀ b ∈ bitmaps, ∃ block,
      Picture.render (Argument.scale (.integer scale)) (.ok (scheme.lit, scheme.unlit)) (.ok b) =
        .ok block ∧ IsCell (gridOf bitmaps.length h w scale gap) scheme scale b block := by
    intro b hb
    obtain ⟨hbh, hbw⟩ := hsize b hb
    exact isCell_render scheme hscale hbh hbw (hpalette b hb)
  have hcount : 1 ≤ (gridOf bitmaps.length h w scale gap).count := List.length_pos_iff.2 hne
  have hroom : ([] : List Bitmap).length + bitmaps.length ≤
      (gridOf bitmaps.length h w scale gap).count := Nat.le_of_eq (Nat.zero_add _)
  obtain ⟨sheet, hfill, hshows⟩ := fill_shows hdraw hroom (shows_clear _ scheme scale)
  refine ⟨sheet, ?_, tiles_of_shows hne hscale hname hshows⟩
  rw [render_eq_fill hne hsize hname]
  simp only [blank_eq hcount, Except.bind]
  exact hfill

/-- One row of two cells, of which one is lit. -/
def dot (column : Nat) : Bitmap := ⟨1, 2, fun _ j => if j = column then 1 else 0⟩

/-- Three bitmaps on a grid of two by two; the third one is in the second row. -/
theorem render_tiles_three :
    let bitmaps := [dot 0, dot 1, dot 0]
    let scheme : Scheme := ⟨"blue", [0, 255, 255], [0, 0, 64]⟩
    ∃ sheet, render (.ok bitmaps) (.integer (2 : Nat)) (.text "blue") (.integer (1 : Nat)) = .ok sheet ∧
      Tiles bitmaps 1 2 2 1 scheme sheet ∧
      sheet.height = 5 ∧ sheet.width = 9 ∧ sheet.pixel 3 0 = [0, 255, 255, 255] := by
  have hsize : ∀ b ∈ [dot 0, dot 1, dot 0], b.height = 1 ∧ b.width = 2 := by decide
  have hpalette : ∀ b ∈ [dot 0, dot 1, dot 0], b.inPalette = true := by decide
  obtain ⟨sheet, hrender, htiles⟩ := render_tiles 1 (List.cons_ne_nil _ _) hsize hpalette
    (by decide : 1 ≤ 2)
    (by decide : Scheme.ofName? "blue" = some ⟨"blue", [0, 255, 255], [0, 0, 64]⟩)
  refine ⟨sheet, hrender, htiles, htiles.height, htiles.width, ?_⟩
  exact (htiles.recovered 1 0 (dot 0) (by decide) rfl 0 (by decide) 0 (by decide)).2 (.inl rfl)

end Sheet

end Chip8
