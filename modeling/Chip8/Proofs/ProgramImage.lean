import Chip8.Proofs.ExactLoad
import Chip8.Proofs.Nesting

/-! Which data is a program image. The kind of a list is found before the bounds of a byte are checked,
and it is the kind of 64-bit integers just when every leaf is a flag or an integer of that kind and not
all of them are flags. So a number that 64 bits do not hold, a real, a text or a null is refused by its
kind, and what passes the kind and then the bounds is never cut down.

* `kindOf_eq_iff`: what the kind of a mixture says about its members;
* `imaged_ofElements`: which lists of a shape have an image, and what stands where in it;
* `Source.reads_exactly`: this for every source, and that an image is read again as itself. -/

namespace Chip8

namespace ElementKind

/-- What may stand in an array of kind `c` and leave it of that kind, if something else is there. -/
def Within (c k : ElementKind) : Prop := k = c ∨ k = flag

theorem join_eq_flag_iff (a b : ElementKind) : a.join b = flag ↔ a = flag ∧ b = flag := by
  cases a <;> cases b <;> simp [join]

/-- No two kinds meet in an integer kind unless they are that kind or flags. -/
theorem within_join_iff {c : ElementKind} (hc : c.isInteger) (a b : ElementKind) :
    Within c (a.join b) ↔ Within c a ∧ Within c b := by
  cases c <;> simp only [isInteger, Bool.false_eq_true] at hc <;>
    cases a <;> cases b <;> simp [Within, join]

theorem ofInteger_eq_signed {i : Int} (h₀ : 0 ≤ i) (h₁ : i ≤ 255) : ofInteger i = signed :=
  if_pos (by omega)

theorem isInteger_ofLeaf {v : Value} (h : (ofLeaf v).isInteger) : ∃ i, v = .integer i := by
  cases v with
  | integer i => exact ⟨i, rfl⟩
  | _ => simp [ofLeaf, isInteger] at h

theorem ofInteger_ne_flag (i : Int) : ofInteger i ≠ flag := by
  rw [ofInteger]
  split
  · nofun
  · split <;> nofun

theorem ofLeaf_eq_flag {v : Value} (h : ofLeaf v = flag) : ∃ b, v = .flag b := by
  cases v with
  | flag b => exact ⟨b, rfl⟩
  | integer i => exact absurd h (ofInteger_ne_flag i)
  | _ => simp [ofLeaf] at h

end ElementKind

open ElementKind

namespace ProgramData

/-- A property of kinds that a mixture has just when both parts have it. -/
theorem foldl_join_iff {P : ElementKind → Prop} (hP : ∀ a b, P (a.join b) ↔ P a ∧ P b)
    (k : ElementKind) (l : List Value) :
    P (l.foldl (fun k v => k.join (.ofLeaf v)) k) ↔ P k ∧ ∀ v ∈ l, P (.ofLeaf v) := by
  induction l generalizing k with
  | nil => simp
  | cons v rest ih => rw [List.foldl_cons, ih, hP, List.forall_mem_cons, and_assoc]

theorem kindOf_iff {P : ElementKind → Prop} (hP : ∀ a b, P (a.join b) ↔ P a ∧ P b)
    (first : Value) (rest : List Value) :
    P (kindOf first rest) ↔ ∀ v ∈ first :: rest, P (.ofLeaf v) := by
  rw [kindOf, foldl_join_iff hP, List.forall_mem_cons]

theorem kindOf_eq_iff {c : ElementKind} (hc : c.isInteger) (first : Value) (rest : List Value) :
    kindOf first rest = c ↔
      (∀ v ∈ first :: rest, Within c (.ofLeaf v)) ∧ ∃ v ∈ first :: rest, ofLeaf v = c := by
  have hflag : c ≠ flag := by rintro rfl; cases hc
  have hwithin := kindOf_iff (within_join_iff hc) first rest
  have hflags := kindOf_iff (P := (· = flag)) join_eq_flag_iff first rest
  constructor
  · intro h
    have hall := hwithin.mp (.inl h)
    refine ⟨hall, ?_⟩
    by_contra! hnone
    have := hflags.mpr fun v hv => (hall v hv).resolve_left (hnone v hv)
    exact hflag (h ▸ this)
  · rintro ⟨hall, v, hv, hvc⟩
    refine (hwithin.mpr hall).resolve_right fun hf => hflag ?_
    rw [← hvc, hflags.mp hf v hv]

/-- Both are integers of 64 bits, but of different kinds. -/
example : kindOf (.integer 9223372036854775808) [.flag true, .integer 1] = real := by decide

/-! ## What is accepted -/

/-- Each leaf is the number of a byte. -/
def InRange (leaves : List Value) : Prop :=
  ∀ v ∈ leaves, ∃ i, v.toInt? = some i ∧ 0 ≤ i ∧ i ≤ 255

/-- Flags and integers that bytes hold, with an integer among them, or nothing at all. -/
def Accepted (leaves : List Value) : Prop :=
  leaves = [] ∨ InRange leaves ∧ ∃ i, .integer i ∈ leaves

/-- The bytes are the numbers of the leaves, one for one. -/
def SameNumbers (leaves : List Value) (image : List UInt8) : Prop :=
  List.Forall₂ (fun v byte => v.toInt? = some (byte.toNat : Int)) leaves image

theorem within_of_inRange {v : Value} {i : Int} (hv : v.toInt? = some i) (h₀ : 0 ≤ i)
    (h₁ : i ≤ 255) : Within signed (.ofLeaf v) := by
  cases v with
  | flag b => exact .inr rfl
  | integer j =>
    cases hv
    exact .inl (ofInteger_eq_signed h₀ h₁)
  | _ => cases hv

theorem kindOf_of_accepted {first : Value} {rest : List Value}
    (h : InRange (first :: rest)) {i : Int} (hi : .integer i ∈ first :: rest) :
    kindOf first rest = signed := by
  rw [kindOf_eq_iff rfl]
  constructor
  · intro v hv
    obtain ⟨j, hj, h₀, h₁⟩ := h v hv
    exact within_of_inRange hj h₀ h₁
  · obtain ⟨j, hj, h₀, h₁⟩ := h _ hi
    cases hj
    exact ⟨_, hi, ofInteger_eq_signed h₀ h₁⟩

/-- A list of an integer kind has numbers only, and not only flags. -/
theorem numbers_of_isInteger {first : Value} {rest : List Value}
    (h : (kindOf first rest).isInteger) :
    (∀ v ∈ first :: rest, ∃ i, v.toInt? = some i) ∧ ∃ i, .integer i ∈ first :: rest := by
  obtain ⟨hall, v, hv, hvc⟩ := (kindOf_eq_iff h first rest).mp rfl
  constructor
  · intro w hw
    rcases hall w hw with hk | hk
    · obtain ⟨i, rfl⟩ := isInteger_ofLeaf (hk ▸ h)
      exact ⟨i, rfl⟩
    · obtain ⟨b, rfl⟩ := ofLeaf_eq_flag hk
      exact ⟨_, rfl⟩
  · obtain ⟨i, rfl⟩ := isInteger_ofLeaf (hvc ▸ h)
    exact ⟨i, hv⟩

theorem ofIntegers_of_forall {l : List Int} (h : ∀ i ∈ l, 0 ≤ i ∧ i ≤ 255) :
    ofIntegers l = .ok (l.map fun i => UInt8.ofNat i.toNat) := by
  rw [ofIntegers, if_pos]
  simpa using h

theorem ofIntegers_of_not_forall {l : List Int} (h : ¬ ∀ i ∈ l, 0 ≤ i ∧ i ≤ 255) :
    ofIntegers l = .error .notByteRange := by
  rw [ofIntegers, if_neg]
  simpa using h

/-- Nothing is cut off: a number in the bounds is the number of its byte. -/
theorem toNat_ofNat_toNat {i : Int} (h₀ : 0 ≤ i) (h₁ : i ≤ 255) :
    ((UInt8.ofNat i.toNat).toNat : Int) = i := by
  rw [UInt8.toNat_ofNat']
  omega

theorem inRange_iff {leaves : List Value} (h : ∀ v ∈ leaves, ∃ i, v.toInt? = some i) :
    InRange leaves ↔ ∀ i ∈ leaves.filterMap Value.toInt?, 0 ≤ i ∧ i ≤ 255 := by
  simp only [List.mem_filterMap]
  constructor
  · rintro hr i ⟨v, hv, hi⟩
    obtain ⟨j, hj, hb⟩ := hr v hv
    cases hi.symm.trans hj
    exact hb
  · intro hr v hv
    obtain ⟨i, hi⟩ := h v hv
    exact ⟨i, hi, hr i ⟨v, hv, hi⟩⟩

theorem sameNumbers_of_inRange {leaves : List Value} (h : InRange leaves) :
    SameNumbers leaves ((leaves.filterMap Value.toInt?).map fun i => UInt8.ofNat i.toNat) := by
  induction leaves with
  | nil => exact .nil
  | cons v rest ih =>
    obtain ⟨i, hi, h₀, h₁⟩ := h v List.mem_cons_self
    rw [List.filterMap_cons_some hi, List.map_cons]
    refine .cons ?_ (ih fun w hw => h w (List.mem_cons_of_mem v hw))
    rw [toNat_ofNat_toNat h₀ h₁, hi]

/-! ## The image of a list -/

/-- What comes of a list with shape `s`. -/
structure Imaged (s : List Nat) (v : Value) (r : Except Error (List UInt8)) : Prop where
  accepted : Accepted v.leaves → ∃ image, r = .ok image ∧ SameNumbers v.leaves image
  refused : ¬ Accepted v.leaves →
    r = .error .notByteRange ∨ ∃ kind, r = .error (.notIntegers kind)
  size : ∀ image, r = .ok image → image.length = s.prod
  placed : ∀ image path, r = .ok image → Value.Inside path s → ∃ w byte, v.at? path = some w ∧
    image[Value.rowMajor s path]? = some byte ∧ w.toInt? = some (byte.toNat : Int)
  reached : ∀ image k, r = .ok image → k < image.length →
    ∃ path, Value.Inside path s ∧ Value.rowMajor s path = k

theorem ofElements_accepted {s : List Nat} {l : List Value} (hs : (Value.list l).HasShape s)
    (h : Accepted (Value.list l).leaves) :
    ∃ image, ofElements l = .ok image ∧ SameNumbers (Value.list l).leaves image := by
  rw [ofElements, Value.shape?_of_hasShape hs]
  cases hl : (Value.list l).leaves with
  | nil => exact ⟨[], rfl, .nil⟩
  | cons first rest =>
    rw [hl] at h
    obtain ⟨hr, i, hi⟩ := h.resolve_left (List.cons_ne_nil _ _)
    have hnum : ∀ v ∈ first :: rest, ∃ i, v.toInt? = some i := fun v hv =>
      (hr v hv).imp fun _ => And.left
    refine ⟨_, ?_, sameNumbers_of_inRange hr⟩
    simp only [kindOf_of_accepted hr hi]
    exact ofIntegers_of_forall ((inRange_iff hnum).mp hr)

theorem ofElements_refused {s : List Nat} {l : List Value} (hs : (Value.list l).HasShape s)
    (h : ¬ Accepted (Value.list l).leaves) :
    ofElements l = .error .notByteRange ∨ ∃ kind, ofElements l = .error (.notIntegers kind) := by
  rw [ofElements, Value.shape?_of_hasShape hs]
  cases hl : (Value.list l).leaves with
  | nil => exact absurd (.inl hl) h
  | cons first rest =>
    rw [hl] at h
    simp only [Option.isNone_some, Bool.false_eq_true, if_false]
    split
    case isTrue hk =>
      -- an integer kind leaves only the bounds to fail
      obtain ⟨hnum, hint⟩ := numbers_of_isInteger hk
      refine .inl (ofIntegers_of_not_forall fun hr => h (.inr ⟨?_, hint⟩))
      exact (inRange_iff hnum).mpr hr
    case isFalse => exact .inr ⟨_, rfl⟩

theorem ofElements_of_ragged {l : List Value} (h : ¬ ∃ s, (Value.list l).HasShape s) :
    ofElements l = .error .shapeMismatch := by
  rw [ofElements, if_pos]
  rwa [← Value.isSome_shape?_iff, Bool.not_eq_true, Option.isSome_eq_false_iff] at h

theorem sameNumbers_of_ok {s : List Nat} {l : List Value} (hs : (Value.list l).HasShape s)
    {image : List UInt8} (h : ofElements l = .ok image) :
    SameNumbers (Value.list l).leaves image := by
  by_cases ha : Accepted (Value.list l).leaves
  · obtain ⟨image', hi, hn⟩ := ofElements_accepted hs ha
    cases hi.symm.trans h
    exact hn
  · rcases ofElements_refused hs ha with he | ⟨kind, he⟩ <;> cases he.symm.trans h

theorem imaged_ofElements {s : List Nat} {l : List Value} (hs : (Value.list l).HasShape s) :
    Imaged s (.list l) (ofElements l) where
  accepted := ofElements_accepted hs
  refused := ofElements_refused hs
  size image h := by
    rw [← Value.length_leaves hs, (sameNumbers_of_ok hs h).length_eq]
  placed image path h hp := by
    have hn := sameNumbers_of_ok hs h
    have hlt : Value.rowMajor s path < (Value.list l).leaves.length := by
      rw [Value.length_leaves hs]
      exact Value.rowMajor_lt hp
    have hlt' : Value.rowMajor s path < image.length := hn.length_eq ▸ hlt
    refine ⟨_, _, ?_, List.getElem?_eq_getElem hlt', hn.get hlt hlt'⟩
    rw [← Value.getElem?_leaves hs hp]
    exact List.getElem?_eq_getElem hlt
  reached image k h hk := by
    rw [← (sameNumbers_of_ok hs h).length_eq, Value.length_leaves hs] at hk
    exact Value.exists_rowMajor hk

end ProgramData

/-! ## Reading a source -/

namespace Source

structure ReadsExactly (src : Source) : Prop where
  listed : ∀ s l, src.data = .value (.list l) → (Value.list l).HasShape s →
    ProgramData.Imaged s (.list l) src.read.1
  ragged : ∀ l, src.data = .value (.list l) → (¬ ∃ s, (Value.list l).HasShape s) →
    src.read.1 = .error .shapeMismatch
  bytes : ∀ content, src.data = .bytes content → src.read.1 = .ok content
  again : ∀ image, src.read.1 = .ok image → (ofImage image).read.1 = .ok image
  /-- A load reads again what it has read, and does what it would do after one reading. -/
  load : ∀ m : Machine, m.loadFrom src = (src.read.1.bind m.loadImage, src.rest)
  supervised : ∀ (s : Supervisor) name, s.loadFrom src name = (s.load src.data name, src.rest)

/-- A list with a shape has an image just when it is empty or holds flags and integers that bytes hold, with
an integer among them, and then the image is these numbers; bytes are their own image, and reading an
image changes nothing. -/
theorem reads_exactly (src : Source) : src.ReadsExactly where
  listed s l hd hs := by
    rw [read, hd]
    exact ProgramData.imaged_ofElements hs
  ragged l hd hr := by
    rw [read, hd]
    exact ProgramData.ofElements_of_ragged hr
  bytes content hd := by rw [read, hd]; rfl
  again image _ := by rw [read_ofImage]
  load m := m.loadFrom_eq src
  supervised s name := s.loadFrom_eq src name

/-- Two rows with a flag among the integers, and a row that no integer kind holds. -/
theorem reads_exactly_nested :
    (∃ image, (generator [.list [.integer 1, .flag true],
        .list [.integer 3, .integer 255]]).read.1 = .ok image ∧
      image.length = 4 ∧ image[2]? = some 3 ∧ (ofImage image).read.1 = .ok image) ∧
    ∀ image, (generator [.integer (2 ^ 64), .integer 1]).read.1 ≠ .ok image := by
  constructor
  · have h := reads_exactly (generator [.list [.integer 1, .flag true],
      .list [.integer 3, .integer 255]])
    have hi := h.listed [2, 2] _ rfl ⟨_, rfl, rfl, by simp [Value.HasShape]⟩
    obtain ⟨image, hr, -⟩ := hi.accepted (.inr ⟨by
      simp [ProgramData.InRange, Value.leaves, Value.itemLeaves, Value.toInt?], 1, by
      simp [Value.leaves, Value.itemLeaves]⟩)
    obtain ⟨w, byte, hw, hb, hn⟩ :=
      hi.placed image [1, 0] hr (.cons (by decide) (.cons (by decide) .nil))
    cases hw
    have h3 : byte = 3 := by
      simp only [Value.toInt?, Option.some.injEq] at hn
      exact UInt8.toNat_inj.mp (by simp; omega)
    exact ⟨image, hr, hi.size image hr, h3 ▸ hb, h.again image hr⟩
  · have hi := (reads_exactly (generator [.integer (2 ^ 64), .integer 1])).listed [2] _ rfl
      ⟨_, rfl, rfl, by simp [Value.HasShape]⟩
    intro image hr
    have hna : ¬ ProgramData.Accepted (Value.list [.integer (2 ^ 64), .integer 1]).leaves := by
      simp [ProgramData.Accepted, ProgramData.InRange, Value.leaves, Value.itemLeaves, Value.toInt?]
    rcases hi.refused hna with he | ⟨kind, he⟩ <;> cases he.symm.trans hr

end Source

end Chip8
