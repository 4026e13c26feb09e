import Chip8.Proofs.Raster

/-! Drawing the same sprite twice in a row. The second drawing undoes the first, as long as it covers the
same pixels; and it does, unless the coordinates are read from `VF`, which the first drawing has written
its report to. What the second one reports is about the pixels that were dark at first.

* `screen_execute_drawing_iff`: when a second drawing restores the screen, whichever registers are named;
* `execute_draw_twice`: what both drawings leave when neither coordinate is in `VF`. -/

namespace Chip8

namespace Screen

theorem xor_right_inj (s t u : Screen) : s.xor t = s.xor u ↔ t = u := by
  constructor
  · intro h
    ext r c
    have hp : (s.xor t).pixel r c = (s.xor u).pixel r c := by rw [h]
    rw [pixel_xor, pixel_xor] at hp
    exact Bool.xor_right_inj.1 hp
  · rintro rfl
    rfl

theorem xor_xor_self (s t : Screen) : (s.xor t).xor t = s := by
  ext r c
  rw [pixel_xor, pixel_xor, Bool.xor_assoc, Bool.xor_self, Bool.xor_false]

/-- Toggled pixels are lit where they were dark. -/
theorem xor_meets_iff (s t : Screen) :
    (s.xor t).meets t = true ↔ ∃ r c, s.pixel r c = false ∧ t.pixel r c = true := by
  have htoggled : ∀ lit : Bool, (lit ^^ true) = true ↔ lit = false := by decide
  rw [meets_iff]
  refine exists_congr fun r => exists_congr fun c => and_congr_left fun ht => ?_
  rw [pixel_xor, ht]
  exact htoggled _

end Screen

namespace Machine

/-- The pixels that a drawing instruction toggles. -/
def mask (m : Machine) (x y height : Register) : Screen :=
  Sprite.mask m.memory m.index.toNat (m.register x).toNat (m.register y).toNat height.val

theorem pixel_mask_iff (m : Machine) (x y height : Register) (p : Cell) :
    (m.mask x y height).pixel p.1 p.2 = true ↔ m.Covers x y height p :=
  Sprite.mask_iff (height_le height) p

/-- The word of a drawing instruction, cut from any number. -/
def drawing (raw : Int) (x y height : Register) : Fields :=
  .ofNat raw (Instruction.draw x y height).encode

theorem execute_drawing (m : Machine) (raw : Int) (x y height : Register) :
    m.execute (drawing raw x y height) =
      { m.setRegister flagRegister (Operation.bit (m.screen.meets (m.mask x y height))) with
        screen := m.screen.xor (m.mask x y height)
        redraw := true
        fault := none
        pc := m.pc + 2 } := by
  rw [drawing, execute_of_reads m (Instruction.ofFields?_encode raw _), perform, drawSprite, mask]
  rfl

/-- The second drawing has to find the coordinates where the first one found them. -/
theorem mask_execute_drawing (m : Machine) (raw : Int) {x y : Register} (height : Register)
    (hx : x ≠ flagRegister) (hy : y ≠ flagRegister) :
    (m.execute (drawing raw x y height)).mask x y height = m.mask x y height := by
  have hkept : ∀ z, z ≠ flagRegister →
      (m.execute (drawing raw x y height)).register z = m.register z := by
    intro z hz
    rw [execute_drawing]
    exact (register_setRegister m flagRegister z _).trans (if_neg (Ne.symm hz))
  rw [mask, hkept x hx, hkept y hy, execute_drawing]
  rfl

/-- Two drawings cancel out if they toggle the same pixels, and only then. -/
theorem screen_execute_drawing_iff (m : Machine) (raw raw' : Int) (x y height : Register) :
    ((m.execute (drawing raw x y height)).execute (drawing raw' x y height)).screen = m.screen ↔
      (m.execute (drawing raw x y height)).mask x y height = m.mask x y height := by
  have hfirst : (m.execute (drawing raw x y height)).screen = m.screen.xor (m.mask x y height) := by
    rw [execute_drawing]
  have hback := m.screen.xor_xor_self (m.mask x y height)
  rw [execute_drawing _ raw', hfirst]
  show (m.screen.xor _).xor _ = m.screen ↔ _
  nth_rewrite 2 [← hback]
  exact Screen.xor_right_inj _ _ _

/-- `VF` tells whether something is the case. -/
def Reports (m : Machine) (p : Prop) : Prop :=
  (p → m.register flagRegister = 1) ∧ (¬ p → m.register flagRegister = 0)

theorem reports_of_bit {m : Machine} {b : Bool} {p : Prop}
    (h : m.register flagRegister = Operation.bit b) (hb : b = true ↔ p) : m.Reports p := by
  rw [Reports, h, ← hb]
  cases b <;> decide

theorem register_execute_drawing (m : Machine) (raw : Int) (x y height : Register) :
    (m.execute (drawing raw x y height)).register flagRegister =
      Operation.bit (m.screen.meets (m.mask x y height)) := by
  rw [execute_drawing]
  exact (register_setRegister m flagRegister flagRegister _).trans (if_pos rfl)

theorem reports_lit (m : Machine) (raw : Int) (x y height : Register) :
    (m.execute (drawing raw x y height)).Reports
      (∃ p, m.Covers x y height p ∧ m.screen.pixel p.1 p.2 = true) := by
  refine reports_of_bit (m.register_execute_drawing raw x y height) ?_
  rw [Screen.meets_iff, Prod.exists]
  refine exists_congr fun r => exists_congr fun c => ?_
  rw [← m.pixel_mask_iff, and_comm]

/-- What is dark at first is lit when the second drawing comes to it. -/
theorem reports_dark (m : Machine) (raw raw' : Int) {x y : Register} (height : Register)
    (hx : x ≠ flagRegister) (hy : y ≠ flagRegister) :
    ((m.execute (drawing raw x y height)).execute (drawing raw' x y height)).Reports
      (∃ p, m.Covers x y height p ∧ m.screen.pixel p.1 p.2 = false) := by
  have hscreen : (m.execute (drawing raw x y height)).screen =
      m.screen.xor (m.mask x y height) := by
    rw [execute_drawing]
  refine reports_of_bit (register_execute_drawing _ raw' x y height) ?_
  rw [hscreen, m.mask_execute_drawing raw height hx hy, Screen.xor_meets_iff, Prod.exists]
  refine exists_congr fun r => exists_congr fun c => ?_
  rw [← m.pixel_mask_iff, and_comm]

/-- From the first machine to the third, a sprite was drawn and drawn again. The second machine shows it
where it was dark, the third one shows what the first one did. -/
structure DrawnTwice (m : Machine) (x y height : Register) (once twice : Machine) : Prop where
  toggled : ∀ p : Cell,
    once.screen.pixel p.1 p.2 ≠ m.screen.pixel p.1 p.2 ↔ m.Covers x y height p
  restored : twice.screen = m.screen
  first : once.Reports (∃ p, m.Covers x y height p ∧ m.screen.pixel p.1 p.2 = true)
  second : twice.Reports (∃ p, m.Covers x y height p ∧ m.screen.pixel p.1 p.2 = false)
  blank : m.screen = Screen.blank → (∃ p, m.Covers x y height p) →
    once.register flagRegister = 0 ∧ twice.register flagRegister = 1
  rest : ∃ flag, twice =
    { m.setRegister flagRegister flag with redraw := true, fault := none, pc := m.pc + 4 }

/-- Only the second flag stays, and two words are behind the program counter. -/
theorem setFlag_setFlag (m : Machine) (screen : Screen) (a b : UInt8) :
    { ({ m.setRegister flagRegister a with
          screen, redraw := true, fault := none, pc := m.pc + 2 } : Machine).setRegister
        flagRegister b with
      screen := m.screen, redraw := true, fault := none, pc := m.pc + 2 + 2 } =
    { m.setRegister flagRegister b with redraw := true, fault := none, pc := m.pc + 4 } := by
  simp only [setRegister, Vector.set_set, UInt16.add_assoc]
  rfl

/-- A drawing instruction whose coordinates are in registers other than `VF`, executed twice in a row on
any machine, restores the screen; each time `VF` tells whether the sprite has met lit pixels, so behind
the second drawing it tells whether some of them were dark at first. -/
theorem execute_draw_twice (m : Machine) (raw raw' : Int) {x y : Register} (height : Register)
    (hx : x ≠ flagRegister) (hy : y ≠ flagRegister) :
    m.DrawnTwice x y height (m.execute (drawing raw x y height))
      ((m.execute (drawing raw x y height)).execute (drawing raw' x y height)) := by
  have hmask := m.mask_execute_drawing raw height hx hy
  have hrestored := (m.screen_execute_drawing_iff raw raw' x y height).2 hmask
  have hfirst := m.reports_lit raw x y height
  have hsecond := m.reports_dark raw raw' height hx hy
  constructor
  case toggled =>
    intro p
    have hxor : ∀ lit covered : Bool, (lit ^^ covered) ≠ lit ↔ covered = true := by decide
    rw [execute_drawing, ← m.pixel_mask_iff]
    show (m.screen.xor _).pixel p.1 p.2 ≠ _ ↔ _
    rw [Screen.pixel_xor]
    exact hxor _ _
  case restored => exact hrestored
  case first => exact hfirst
  case second => exact hsecond
  case blank =>
    rintro hb ⟨p, hp⟩
    have hdark : m.screen.pixel p.1 p.2 = false := by rw [hb, Screen.pixel_blank]
    refine ⟨hfirst.2 ?_, hsecond.1 ⟨p, hp, hdark⟩⟩
    rintro ⟨q, -, hq⟩
    rw [hb, Screen.pixel_blank] at hq
    cases hq
  case rest =>
    have htwice := execute_drawing (m.execute (drawing raw x y height)) raw' x y height
    have hscreen := (congrArg Machine.screen htwice).symm.trans hrestored
    simp only at hscreen
    rw [htwice, hscreen, execute_drawing m raw]
    exact ⟨_, m.setFlag_setFlag _ _ _⟩

/-- The glyph of zero at the top left corner of a blank screen, with both coordinates in `V0`. -/
theorem execute_draw_twice_glyph :
    let m := initial (Random.Key.ofSeed 0)
    let zero := Register.ofNat 0
    let word := drawing 0xD005 zero zero (Register.ofNat 5)
    zero ≠ flagRegister ∧ m.DrawnTwice zero zero (Register.ofNat 5) (m.execute word)
        ((m.execute word).execute word) ∧
      (m.execute word).register flagRegister = 0 ∧
      ((m.execute word).execute word).register flagRegister = 1 := by
  have hzero : Register.ofNat 0 ≠ flagRegister := by decide
  have hdrawn := execute_draw_twice (initial (Random.Key.ofSeed 0)) 0xD005 0xD005 (Register.ofNat 5)
    hzero hzero
  have hbit : Sprite.bit (Memory.initial.read 0) 0 = true := by
    rw [Memory.initial, Memory.read_overlay, if_pos (by decide)]
    decide
  have hcovers : (initial (Random.Key.ofSeed 0)).Covers (Register.ofNat 0) (Register.ofNat 0)
      (Register.ofNat 5) (Screen.row 0, Screen.column 0) :=
    ⟨0, by decide, 0, by decide, hbit, rfl⟩
  exact ⟨hzero, hdrawn, hdrawn.blank rfl ⟨_, hcovers⟩⟩

end Machine

end Chip8
