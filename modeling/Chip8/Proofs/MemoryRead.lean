import Chip8.Proofs.ExactLoad
import Chip8.Proofs.Image
import Chip8.Proofs.Reachable
import Chip8.Supervisor.Visit

/-! Reading memory from outside. A host that asks for a window of memory gets its bytes, or a refusal
where the window is not in memory. Both ends of the window are looked at, but not their order, so a window
of negative length is not always refused: where its end lies below address zero the end counts from the
top, and the host gets bytes that it did not ask for.

* `readMemory_ok`: what is read between two bounds;
* `excerpt_of_nonneg`: windows that do not run backwards;
* `read_backwards`: those that do;
* `readMemory_excerpt_iff`: when a read gives what was asked for. -/

namespace Chip8

namespace Memory

theorem length_slice (m : Memory) (start : Nat) {stop : Nat} (h : stop ≤ 4096) :
    ((m.toList.take stop).drop start).length = stop - start := by
  rw [List.length_drop, List.length_take, Vector.length_toList, Nat.min_eq_left h]

theorem getElem_slice (m : Memory) {start stop i : Nat} (h : stop ≤ 4096)
    (hi : i < ((m.toList.take stop).drop start).length) :
    ((m.toList.take stop).drop start)[i] = m.read (start + i) := by
  have hlen := m.length_slice start h
  have hmod : (start + i) % 4096 = start + i := Nat.mod_eq_of_lt (by omega)
  rw [List.getElem_drop, List.getElem_take, Vector.getElem_toList, read_eq _ _ (Address.mod_lt _)]
  simp only [hmod]

/-- The rows of the glyphs, from address zero on. -/
theorem read_font {a : Nat} (h : a < font.length) : initial.read a = font.getD a 0 := by
  have hlen : a < 80 := h
  have ho : offset 0 (a % 4096) = a := by
    rw [offset]
    omega
  rw [initial, read_overlay, ho, if_pos h]

end Memory

/-- What a host is to get that asks for `length` bytes from `address` on: these bytes, if they lie in
memory, and a refusal otherwise. -/
inductive Machine.Excerpt (m : Machine) (address length : Int) : Except Error (List UInt8) → Prop
  | refused (h : length < 0 ∨ address < 0 ∨ 4096 < address + length) :
      Excerpt m address length (.error (.windowRefused address length))
  | bytes (h : ¬ (length < 0 ∨ address < 0 ∨ 4096 < address + length)) (content : List UInt8)
      (hl : (content.length : Int) = length)
      (hb : ∀ i (hi : i < content.length), 0 ≤ address + i ∧ address + i < 4096 ∧
        content[i] = m.memory.read (address + i).toNat) :
      Excerpt m address length (.ok content)

namespace Supervisor

theorem sliceBound_of_nonneg {i : Int} (h : 0 ≤ i) : sliceBound 4096 i = min i.toNat 4096 := by
  rw [sliceBound, if_neg (by omega)]

theorem sliceBound_of_neg {i : Int} (h : i < 0) : sliceBound 4096 i = (4096 + i).toNat := by
  rw [sliceBound, if_pos h]
  omega

theorem sliceBound_le (i : Int) : sliceBound 4096 i ≤ 4096 :=
  Nat.min_le_right _ _

section Reads

variable (s : Supervisor) {address length : Int}

theorem readMemory_refused (h : address < 0 ∨ 4096 < address + length) :
    s.readMemory address length = .error (.windowRefused address length) :=
  if_pos h

theorem readMemory_eq (h : ¬ (address < 0 ∨ 4096 < address + length)) :
    s.readMemory address length =
      .ok ((s.machine.memory.toList.take (sliceBound 4096 (address + length))).drop
        (sliceBound 4096 address)) :=
  if_neg h

/-- The bytes between the two bounds; where there are any, the lower one is the address. -/
theorem readMemory_ok (h : ¬ (address < 0 ∨ 4096 < address + length)) :
    ∃ content, s.readMemory address length = .ok content ∧
      content.length = sliceBound 4096 (address + length) - sliceBound 4096 address ∧
      ∀ i (hi : i < content.length), content[i] = s.machine.memory.read (address.toNat + i) := by
  have hstop := sliceBound_le (address + length)
  have hlen := s.machine.memory.length_slice (sliceBound 4096 address) hstop
  refine ⟨_, s.readMemory_eq h, hlen, fun i hi => ?_⟩
  have hstart : sliceBound 4096 address = address.toNat := by
    have hpos : 0 ≤ address := by omega
    have hmin := sliceBound_of_nonneg hpos
    omega
  rw [s.machine.memory.getElem_slice hstop hi, hstart]

theorem excerpt_of_refused (h : address < 0 ∨ 4096 < address + length) :
    s.machine.Excerpt address length (s.readMemory address length) := by
  rw [s.readMemory_refused h]
  exact .refused (.inr h)

theorem excerpt_of_nonneg (hl : 0 ≤ length) :
    s.machine.Excerpt address length (s.readMemory address length) := by
  by_cases h : address < 0 ∨ 4096 < address + length
  · exact s.excerpt_of_refused h
  · obtain ⟨content, hr, hlen, hb⟩ := s.readMemory_ok h
    rw [sliceBound_of_nonneg (by omega), sliceBound_of_nonneg (by omega)] at hlen
    rw [hr]
    refine .bytes (by omega) content (by omega) fun i hi => ⟨by omega, by omega, ?_⟩
    rw [hb i hi]
    congr 1
    omega

/-- A window that runs backwards from an address in memory: nothing, or what lies between the address and
an end that is counted from the top. -/
theorem read_backwards (hl : length < 0) (ha : 0 ≤ address) (hs : address + length ≤ 4096) :
    ∃ content, s.readMemory address length = .ok content ∧
      content.length = (if 0 ≤ address + length then 0 else (4096 + length).toNat) ∧
      ∀ i (hi : i < content.length), content[i] = s.machine.memory.read (address.toNat + i) := by
  have hok : ¬ (address < 0 ∨ 4096 < address + length) := by omega
  obtain ⟨content, hr, hlen, hb⟩ := s.readMemory_ok hok
  refine ⟨content, hr, ?_, hb⟩
  rw [hlen, sliceBound_of_nonneg ha]
  split
  · rw [sliceBound_of_nonneg ‹_›]
    omega
  · rw [sliceBound_of_neg (by omega)]
    omega

theorem not_excerpt_backwards (hl : length < 0) (ha : 0 ≤ address) (hs : address + length ≤ 4096) :
    ¬ s.machine.Excerpt address length (s.readMemory address length) := by
  obtain ⟨content, hr, -⟩ := s.read_backwards hl ha hs
  rw [hr]
  rintro (_ | ⟨h, -⟩)
  exact h (.inl hl)

end Reads

/-! ## Loads and reads -/

theorem image_of_load {s : Supervisor} {data : ProgramData} {source : Option String}
    (h : (s.load data source).2 = .ok ()) :
    ∃ image, data.image = .ok image ∧ image.length ≤ Machine.maxProgramSize := by
  cases hi : data.image with
  | error e =>
    rw [s.load_of_not_image hi] at h
    cases h
  | ok image =>
    refine ⟨image, rfl, Nat.le_of_not_lt fun hlt => ?_⟩
    rw [s.load_of_image hi, s.machine.loadImage_of_lt hlt] at h
    cases h

theorem readMemory_load {s : Supervisor} {data : ProgramData} {source : Option String}
    (h : (s.load data source).2 = .ok ()) : ∃ image, data.image = .ok image ∧
      (s.load data source).1.readMemory 0x200 image.length = .ok image := by
  obtain ⟨image, hi, hle⟩ := image_of_load h
  have hmemory : (s.load data source).1.machine.memory = Machine.withImage s.machine.memory image := by
    rw [(load_of_le s hi hle source).1, Machine.memory_loaded]
  refine ⟨image, hi, ?_⟩
  have hsize : image.length ≤ 3584 := hle
  have hok : ¬ ((0x200 : Int) < 0 ∨ 4096 < 0x200 + (image.length : Int)) := by omega
  obtain ⟨content, hr, hlen, hb⟩ := (s.load data source).1.readMemory_ok hok
  rw [sliceBound_of_nonneg (by omega), sliceBound_of_nonneg (by omega)] at hlen
  rw [hr]
  congr 1
  refine List.ext_getElem (by omega) fun i hi hi' => ?_
  rw [hb i hi, hmemory]
  exact Machine.read_withImage s.machine.memory hi' hle

theorem afterVisits_eq (s : Supervisor) (visits : List Visit) :
    s.afterVisits visits = s.afterCalls (visits.filterMap Visit.call?) := by
  induction visits generalizing s with
  | nil => rfl
  | cons v rest ih =>
    cases v with
    | call c => exact ih (s.call c).1
    | read address length => exact ih s

/-- A read gives what was asked for, or refuses what is not in memory, unless the window runs backwards from
an address in memory or above it and does not end above memory. -/
theorem readMemory_excerpt_iff (s : Supervisor) (address length : Int) :
    (s.machine.Excerpt address length (s.readMemory address length) ↔
      ¬ (length < 0 ∧ 0 ≤ address ∧ address + length ≤ 4096)) ∧
    (length < 0 ∧ 0 ≤ address ∧ address + length ≤ 4096 →
      ∃ content, s.readMemory address length = .ok content ∧
        content.length = (if 0 ≤ address + length then 0 else (4096 + length).toNat) ∧
        ∀ i (hi : i < content.length), content[i] = s.machine.memory.read (address.toNat + i)) ∧
    (∀ data source, (s.load data source).2 = .ok () → ∃ image, data.image = .ok image ∧
      (s.load data source).1.readMemory 0x200 image.length = .ok image) ∧
    ∀ visits, s.afterVisits visits = s.afterCalls (visits.filterMap Visit.call?) := by
  refine ⟨⟨?_, ?_⟩, ?_, fun data source => readMemory_load, s.afterVisits_eq⟩
  · rintro he ⟨hl, ha, hs⟩
    exact s.not_excerpt_backwards hl ha hs he
  · intro hn
    by_cases hl : 0 ≤ length
    · exact s.excerpt_of_nonneg hl
    · exact s.excerpt_of_refused (by omega)
  · rintro ⟨hl, ha, hs⟩
    exact s.read_backwards hl ha hs

/-- A program that was loaded is read back, and the last byte of memory can be read. -/
theorem readMemory_excerpt_addition :
    ((fresh 0 false).load (.bytes [0x6A, 0x05]) none).2 = .ok () ∧
      ((fresh 0 false).load (.bytes [0x6A, 0x05]) none).1.readMemory 0x200 2 = .ok [0x6A, 0x05] ∧
      (fresh 0 false).machine.Excerpt 0xFFF 1 ((fresh 0 false).readMemory 0xFFF 1) := by
  have hload : ((fresh 0 false).load (.bytes [0x6A, 0x05]) none).2 = .ok () :=
    (load_of_le (fresh 0 false) rfl (by decide) none).2
  obtain ⟨hiff, -, hloaded, -⟩ := readMemory_excerpt_iff (fresh 0 false) 0xFFF 1
  obtain ⟨image, ⟨⟩, hread⟩ := hloaded _ _ hload
  exact ⟨hload, hread, hiff.2 (by decide)⟩

/-- A new machine is asked for fewer than no bytes, and gives the first row of its first glyph. -/
theorem readMemory_backwards : (fresh 0 false).Reachable ∧
    (fresh 0 false).readMemory 0 (-4095) = .ok [0xF0] ∧
    ¬ (fresh 0 false).machine.Excerpt 0 (-4095) ((fresh 0 false).readMemory 0 (-4095)) := by
  have hl : (-4095 : Int) < 0 := by decide
  have ha : (0 : Int) ≤ 0 := by decide
  have hs : (0 : Int) + -4095 ≤ 4096 := by decide
  obtain ⟨content, hr, hlen, hb⟩ := (fresh 0 false).read_backwards hl ha hs
  obtain ⟨b, rfl⟩ : ∃ b, content = [b] := List.length_eq_one_iff.1 hlen
  have hbyte : b = 0xF0 := by
    refine (hb 0 Nat.zero_lt_one).trans ?_
    rw [machine_fresh]
    exact Memory.read_font (by decide)
  rw [hbyte] at hr
  exact ⟨reachable_fresh (by decide) false, hr,
    (fresh 0 false).not_excerpt_backwards hl ha hs⟩

end Supervisor

end Chip8
