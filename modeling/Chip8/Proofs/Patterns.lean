import Chip8.Machine.Part
import Chip8.Proofs.Recognition

/-! Every word that spells an instruction fits the pattern of that instruction and no other of the
table. So a question about the patterns of a word is a question about the instruction it spells. -/

namespace Chip8

namespace Instruction

/-- The row of the table that an instruction belongs to. -/
def pattern : Instruction → Pattern
  | clear => ⟨0x0, some 0x0, some 0xE, some 0x0⟩
  | ret => .ret
  | jump _ => .jump
  | call _ => .call
  | skipEqualByte _ _ => .skipEqualByte
  | skipUnequalByte _ _ => .skipUnequalByte
  | skipEqual _ _ => .skipEqual
  | setByte _ _ => ⟨0x6, none, none, none⟩
  | addByte _ _ => ⟨0x7, none, none, none⟩
  | operate op _ _ => ⟨0x8, none, none, some op.selector⟩
  | skipUnequal _ _ => .skipUnequal
  | setIndex _ => ⟨0xA, none, none, none⟩
  | jumpOffset _ => .jumpOffset
  | random _ _ => ⟨0xC, none, none, none⟩
  | draw _ _ _ => ⟨0xD, none, none, none⟩
  | skipPressed _ => .skipPressed
  | skipReleased _ => .skipReleased
  | readDelay _ => ⟨0xF, none, some 0x0, some 0x7⟩
  | awaitKey _ => .awaitKey
  | setDelay _ => ⟨0xF, none, some 0x1, some 0x5⟩
  | setSound _ => ⟨0xF, none, some 0x1, some 0x8⟩
  | addIndex _ => ⟨0xF, none, some 0x1, some 0xE⟩
  | glyph _ => ⟨0xF, none, some 0x2, some 0x9⟩
  | digits _ => ⟨0xF, none, some 0x3, some 0x3⟩
  | store _ => ⟨0xF, none, some 0x5, some 0x5⟩
  | load _ => ⟨0xF, none, some 0x6, some 0x5⟩

theorem pattern_mem (i : Instruction) : i.pattern ∈ Pattern.all := by
  cases i with
  | operate op => cases op <;> simp only [pattern] <;> decide
  | _ => simp only [pattern]; decide

end Instruction

/-! ## Instructions fit their patterns -/

namespace Pattern

theorem fits_none (k : Nat) : Fits none k := by
  rintro d ⟨⟩

theorem fits_some {d k : Nat} : Fits (some d) k ↔ k = d :=
  ⟨fun h => h d rfl, fun h _ hd => h.trans (Option.some.inj hd)⟩

theorem Matches.withX {p : Pattern} {w x : Nat} (h : p.Matches w) (hx : w / 0x100 % 16 = x) :
    (p.withX x).Matches w :=
  ⟨h.1, fits_some.2 hx, h.2.2⟩

end Pattern

namespace Instruction

open Pattern

theorem pack_x (family : Nat) (x : Register) {y n : Nat} (h : 0x10 * y + n < 0x100) :
    pack family x y n / 0x100 % 16 = x := by
  have hx := x.isLt
  rw [pack]
  omega

theorem matches_address (family : Nat) (a : Address) :
    (⟨family, none, none, none⟩ : Pattern).Matches (0x1000 * family + a.val) := by
  refine ⟨?_, fits_none _, fits_none _, fits_none _⟩
  show (0x1000 * family + a.val) / 0x1000 = family
  omega

theorem matches_byte (family : Nat) (x : Register) (b : UInt8) :
    (⟨family, none, none, none⟩ : Pattern).Matches (pack family x 0 b.toNat) := by
  have hb := b.toNat_lt
  refine ⟨?_, fits_none _, fits_none _, fits_none _⟩
  show pack family x 0 b.toNat / 0x1000 = family
  rw [pack]
  omega

theorem matches_pack (p : Pattern) {x y n : Nat} (hx : x < 16) (hy : y < 16) (hn : n < 16)
    (hpx : Fits p.x x) (hpy : Fits p.y y) (hpn : Fits p.n n) : p.Matches (pack p.family x y n) := by
  have h₁ : pack p.family x y n / 0x1000 = p.family := by rw [pack]; omega
  have h₂ : pack p.family x y n / 0x100 % 16 = x := by rw [pack]; omega
  have h₃ : pack p.family x y n / 0x10 % 16 = y := by rw [pack]; omega
  have h₄ : pack p.family x y n % 16 = n := by rw [pack]; omega
  rw [Matches, h₁, h₂, h₃, h₄]
  exact ⟨rfl, hpx, hpy, hpn⟩

theorem matches_last (family : Nat) (x y : Register) {n : Nat} (hn : n < 16) :
    (⟨family, none, none, some n⟩ : Pattern).Matches (pack family x y n) :=
  matches_pack ⟨family, none, none, some n⟩ x.isLt y.isLt hn (fits_none _) (fits_none _)
    (fits_some.2 rfl)

theorem matches_selector (family : Nat) (x : Register) {y n : Nat} (hy : y < 16) (hn : n < 16) :
    (⟨family, none, some y, some n⟩ : Pattern).Matches (pack family x y n) :=
  matches_pack ⟨family, none, some y, some n⟩ x.isLt hy hn (fits_none _) (fits_some.2 rfl)
    (fits_some.2 rfl)

theorem pattern_matches (i : Instruction) : i.pattern.Matches i.encode := by
  cases i with
  | clear | ret =>
    exact matches_pack _ (by decide) (by decide) (by decide) (fits_some.2 rfl) (fits_some.2 rfl)
      (fits_some.2 rfl)
  | jump a | call a | setIndex a | jumpOffset a => exact matches_address _ a
  | skipEqualByte x b | skipUnequalByte x b | setByte x b | addByte x b | random x b =>
    exact matches_byte _ x b
  | skipEqual x y | skipUnequal x y => exact matches_last _ x y (by decide)
  | operate op x y => exact matches_last _ x y op.selector_lt
  | draw x y n => exact matches_pack _ x.isLt y.isLt n.isLt (fits_none _) (fits_none _) (fits_none _)
  | _ x => exact matches_selector _ x (by decide) (by decide)

end Instruction

/-! ## No word fits two patterns -/

namespace Pattern

/-- Both nibbles are fixed, to different digits. -/
def Clash : Option Nat → Option Nat → Prop
  | some d, some e => d ≠ e
  | _, _ => False

instance : (a b : Option Nat) → Decidable (Clash a b)
  | some d, some e => inferInstanceAs (Decidable (d ≠ e))
  | some _, none => inferInstanceAs (Decidable False)
  | none, _ => inferInstanceAs (Decidable False)

/-- Some nibble tells the patterns apart. -/
def Apart (p q : Pattern) : Prop :=
  p.family ≠ q.family ∨ Clash p.x q.x ∨ Clash p.y q.y ∨ Clash p.n q.n

instance (p q : Pattern) : Decidable (p.Apart q) :=
  inferInstanceAs (Decidable (_ ∨ _))

theorem all_apart : ∀ p ∈ all, ∀ q ∈ all, p = q ∨ p.Apart q := by
  decide +kernel

theorem not_clash {a b : Option Nat} {k : Nat} (ha : Fits a k) (hb : Fits b k) : ¬ Clash a b := by
  intro hc
  cases a with
  | none => exact hc
  | some d =>
    cases b with
    | none => exact hc
    | some e => exact hc ((fits_some.1 ha).symm.trans (fits_some.1 hb))

theorem eq_of_matches {p q : Pattern} {w : Nat} (hp : p ∈ all) (hq : q ∈ all) (h : p.Matches w)
    (h' : q.Matches w) : p = q := by
  obtain ⟨hf, hx, hy, hn⟩ := h
  obtain ⟨hf', hx', hy', hn'⟩ := h'
  rcases all_apart p hp q hq with he | hf'' | hc | hc | hc
  · exact he
  · exact absurd (hf.symm.trans hf') hf''
  · exact absurd hc (not_clash hx hx')
  · exact absurd hc (not_clash hy hy')
  · exact absurd hc (not_clash hn hn')

end Pattern

namespace Instruction

/-- A word spells one instruction at most. -/
theorem encode_inj {i j : Instruction} {w : UInt16} (h : i.encode = w.toNat)
    (h' : j.encode = w.toNat) : i = j :=
  Option.some.inj (((ofFields?_eq_some_iff w i).2 h).symm.trans ((ofFields?_eq_some_iff w j).2 h'))

section Spelled

variable {i : Instruction} {w : Nat} (h : i.encode = w)

include h

theorem matches_iff {p : Pattern} (hp : p ∈ Pattern.all) : p.Matches w ↔ i.pattern = p := by
  subst h
  constructor
  · exact fun hm => Pattern.eq_of_matches i.pattern_mem hp i.pattern_matches hm
  · rintro rfl
    exact i.pattern_matches

theorem among_iff {ps : List Pattern} (hps : ps ⊆ Pattern.all) :
    Pattern.Among ps w ↔ i.pattern ∈ ps := by
  constructor
  · rintro ⟨p, hp, hm⟩
    rw [(matches_iff h (hps hp)).1 hm]
    exact hp
  · exact fun hm => ⟨i.pattern, hm, (matches_iff h i.pattern_mem).2 rfl⟩

end Spelled

/-- A word that fits a pattern of the table spells an instruction of that pattern. -/
theorem spelled_of_matches {p : Pattern} {w : UInt16} (hp : p ∈ Pattern.all)
    (h : p.Matches w.toNat) : ∃ i : Instruction, i.encode = w.toNat ∧ i.pattern = p := by
  cases hi : ofFields? (.ofWord w) with
  | none => exact absurd h ((ofFields?_eq_none_iff w).1 hi p hp)
  | some i =>
    have hw := (ofFields?_eq_some_iff w i).1 hi
    exact ⟨i, hw, (matches_iff hw hp).1 h⟩

end Instruction

end Chip8
