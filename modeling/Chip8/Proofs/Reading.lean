import Chip8.Instruction

/-! Reading a word is exact: it gives an instruction when that instruction is spelled by the word, and
only then. A word is written by packing nibbles, so the fields of a packed word come first. -/

namespace Chip8

namespace Fields

theorem val_family (raw : Int) (w : Nat) : (ofNat raw w).family.val = w / 4096 % 16 := rfl

theorem val_x (raw : Int) (w : Nat) : (ofNat raw w).x.val = w / 256 % 16 := rfl

theorem val_y (raw : Int) (w : Nat) : (ofNat raw w).y.val = w / 16 % 16 := rfl

theorem val_n (raw : Int) (w : Nat) : (ofNat raw w).n.val = w % 16 := rfl

theorem val_nnn (raw : Int) (w : Nat) : (ofNat raw w).nnn.val = w % 4096 := rfl

theorem toNat_nn (raw : Int) (w : Nat) : (ofNat raw w).nn.toNat = w % 256 := by
  simp [ofNat]

theorem ofNat_address (raw : Int) (f : Nat) (hf : f < 16) (a : Address) :
    (ofNat raw (4096 * f + a.val)).family.val = f ∧ (ofNat raw (4096 * f + a.val)).nnn = a := by
  have ha := a.isLt
  refine ⟨?_, Fin.ext ?_⟩
  · rw [val_family]; omega
  · rw [val_nnn]; omega

theorem ofNat_byte (raw : Int) (f : Nat) (hf : f < 16) (x : Register) (b : UInt8) :
    (ofNat raw (Instruction.pack f x 0 b.toNat)).family.val = f ∧
      (ofNat raw (Instruction.pack f x 0 b.toNat)).x = x ∧
      (ofNat raw (Instruction.pack f x 0 b.toNat)).nn = b := by
  have hx := x.isLt
  have hb := b.toNat_lt
  refine ⟨?_, Fin.ext ?_, UInt8.toNat_inj.1 ?_⟩
  · rw [val_family, Instruction.pack]; omega
  · rw [val_x, Instruction.pack]; omega
  · rw [toNat_nn, Instruction.pack]; omega

theorem ofNat_nibbles (raw : Int) (f : Nat) (hf : f < 16) (x y n : Register) :
    (ofNat raw (Instruction.pack f x y n)).family.val = f ∧
      (ofNat raw (Instruction.pack f x y n)).x = x ∧
      (ofNat raw (Instruction.pack f x y n)).y = y ∧
      (ofNat raw (Instruction.pack f x y n)).n = n := by
  have hx := x.isLt
  have hy := y.isLt
  have hn := n.isLt
  refine ⟨?_, Fin.ext ?_, Fin.ext ?_, Fin.ext ?_⟩
  · rw [val_family, Instruction.pack]; omega
  · rw [val_x, Instruction.pack]; omega
  · rw [val_y, Instruction.pack]; omega
  · rw [val_n, Instruction.pack]; omega

/-- In the families E and F the low byte selects the instruction. -/
theorem ofNat_selector (raw : Int) (f : Nat) (hf : f < 16) (x : Register) (y n : Nat) (b : UInt8)
    (hb : 16 * y + n = b.toNat) :
    (ofNat raw (Instruction.pack f x y n)).family.val = f ∧
      (ofNat raw (Instruction.pack f x y n)).x = x ∧
      (ofNat raw (Instruction.pack f x y n)).nn = b := by
  have hp : Instruction.pack f x y n = Instruction.pack f x 0 b.toNat := by
    simp only [Instruction.pack]; omega
  rw [hp]
  exact ofNat_byte raw f hf x b

end Fields

namespace Operation

theorem selector_of_ofSelector? {n : Nat} {op : Operation} (h : ofSelector? n = some op) :
    op.selector = n := by
  simpa using List.find?_some h

theorem selector_lt (op : Operation) : op.selector < 16 := by cases op <;> decide

theorem ofSelector?_selector (op : Operation) : ofSelector? op.selector = some op := by
  cases op <;> rfl

end Operation

namespace Instruction

/-! ## What is written can be read -/

theorem encode_miscellany {entry : UInt8 × (Register → Instruction)} (h : entry ∈ miscellany)
    (x : Register) : (entry.2 x).encode = pack 0xF x 0 entry.1.toNat := by
  simp only [miscellany, List.mem_cons, List.not_mem_nil, or_false] at h
  rcases h with rfl | rfl | rfl | rfl | rfl | rfl | rfl | rfl | rfl <;> simp [encode, pack]

theorem find?_miscellany {entry : UInt8 × (Register → Instruction)} (h : entry ∈ miscellany) :
    miscellany.find? (fun e => e.1 = entry.1) = some entry := by
  simp only [miscellany, List.mem_cons, List.not_mem_nil, or_false] at h
  rcases h with rfl | rfl | rfl | rfl | rfl | rfl | rfl | rfl | rfl <;> rfl

theorem ofFields?_miscellany (raw : Int) (entry : UInt8 × (Register → Instruction))
    (h : entry ∈ miscellany) (x : Register) :
    ofFields? (Fields.ofNat raw (entry.2 x).encode) = some (entry.2 x) := by
  obtain ⟨hf, hx, hb⟩ := Fields.ofNat_byte raw 0xF (by decide) x entry.1
  rw [encode_miscellany h]
  simp only [ofFields?, hf, ofMiscellany?, hx, hb, find?_miscellany h, Option.map_some]

theorem ofFields?_encode (raw : Int) (i : Instruction) :
    ofFields? (Fields.ofNat raw i.encode) = some i := by
  have address := Fields.ofNat_address raw
  have byte := Fields.ofNat_byte raw
  have nibbles := Fields.ofNat_nibbles raw
  have selector := Fields.ofNat_selector raw
  cases i with
  | clear => rfl
  | ret => rfl
  | jump a =>
    obtain ⟨hf, ha⟩ := address 0x1 (by decide) a
    simp only [encode, ofFields?, hf, ha]
  | call a =>
    obtain ⟨hf, ha⟩ := address 0x2 (by decide) a
    simp only [encode, ofFields?, hf, ha]
  | skipEqualByte x b =>
    obtain ⟨hf, hx, hb⟩ := byte 0x3 (by decide) x b
    simp only [encode, ofFields?, hf, hx, hb]
  | skipUnequalByte x b =>
    obtain ⟨hf, hx, hb⟩ := byte 0x4 (by decide) x b
    simp only [encode, ofFields?, hf, hx, hb]
  | skipEqual x y =>
    obtain ⟨hf, hx, hy, hn⟩ := nibbles 0x5 (by decide) x y (Register.ofNat 0)
    simp only [Register.val_ofNat, Nat.zero_mod] at hf hx hy hn
    simp only [encode, ofFields?, hf, hx, hy, hn]
    rfl
  | setByte x b =>
    obtain ⟨hf, hx, hb⟩ := byte 0x6 (by decide) x b
    simp only [encode, ofFields?, hf, hx, hb]
  | addByte x b =>
    obtain ⟨hf, hx, hb⟩ := byte 0x7 (by decide) x b
    simp only [encode, ofFields?, hf, hx, hb]
  | operate op x y =>
    obtain ⟨hf, hx, hy, hn⟩ := nibbles 0x8 (by decide) x y ⟨op.selector, op.selector_lt⟩
    simp only [encode, ofFields?, hf, hx, hy, hn, Operation.ofSelector?_selector, Option.map_some]
  | skipUnequal x y =>
    obtain ⟨hf, hx, hy, hn⟩ := nibbles 0x9 (by decide) x y (Register.ofNat 0)
    simp only [Register.val_ofNat, Nat.zero_mod] at hf hx hy hn
    simp only [encode, ofFields?, hf, hx, hy, hn]
    rfl
  | setIndex a =>
    obtain ⟨hf, ha⟩ := address 0xA (by decide) a
    simp only [encode, ofFields?, hf, ha]
  | jumpOffset a =>
    obtain ⟨hf, ha⟩ := address 0xB (by decide) a
    simp only [encode, ofFields?, hf, ha]
  | random x b =>
    obtain ⟨hf, hx, hb⟩ := byte 0xC (by decide) x b
    simp only [encode, ofFields?, hf, hx, hb]
  | draw x y n =>
    obtain ⟨hf, hx, hy, hn⟩ := nibbles 0xD (by decide) x y n
    simp only [encode, ofFields?, hf, hx, hy, hn]
  | skipPressed x =>
    obtain ⟨hf, hx, hb⟩ := selector 0xE (by decide) x 0x9 0xE 0x9E rfl
    simp only [encode, ofFields?, hf, ofKey?, hx, hb, ↓reduceIte]
  | skipReleased x =>
    obtain ⟨hf, hx, hb⟩ := selector 0xE (by decide) x 0xA 0x1 0xA1 rfl
    simp only [encode, ofFields?, hf, ofKey?, hx, hb]
    rfl
  | readDelay x => exact ofFields?_miscellany raw (0x07, readDelay) (by simp [miscellany]) x
  | awaitKey x => exact ofFields?_miscellany raw (0x0A, awaitKey) (by simp [miscellany]) x
  | setDelay x => exact ofFields?_miscellany raw (0x15, setDelay) (by simp [miscellany]) x
  | setSound x => exact ofFields?_miscellany raw (0x18, setSound) (by simp [miscellany]) x
  | addIndex x => exact ofFields?_miscellany raw (0x1E, addIndex) (by simp [miscellany]) x
  | glyph x => exact ofFields?_miscellany raw (0x29, glyph) (by simp [miscellany]) x
  | digits x => exact ofFields?_miscellany raw (0x33, digits) (by simp [miscellany]) x
  | store x => exact ofFields?_miscellany raw (0x55, store) (by simp [miscellany]) x
  | load x => exact ofFields?_miscellany raw (0x65, load) (by simp [miscellany]) x

/-! ## What is read was written -/

theorem encode_of_ofSystem? {f : Fields} {i : Instruction} (h : ofSystem? f = some i) :
    i.encode = f.nnn.val := by
  unfold ofSystem? at h
  split at h
  · cases h; simp_all [encode, pack]
  · split at h
    · cases h; simp_all [encode, pack]
    · cases h

theorem encode_of_ofKey? {f : Fields} {i : Instruction} (h : ofKey? f = some i) :
    i.encode = pack 0xE f.x 0 f.nn.toNat := by
  unfold ofKey? at h
  split at h
  case isTrue hb => cases h; simp [encode, pack, hb]
  case isFalse =>
    split at h
    case isTrue hb => cases h; simp [encode, pack, hb]
    case isFalse => cases h

theorem encode_of_ofMiscellany? {f : Fields} {i : Instruction} (h : ofMiscellany? f = some i) :
    i.encode = pack 0xF f.x 0 f.nn.toNat := by
  obtain ⟨entry, hfind, rfl⟩ := Option.map_eq_some_iff.1 h
  have hb : entry.1 = f.nn := by simpa using List.find?_some hfind
  rw [encode_miscellany (List.mem_of_find?_eq_some hfind), hb]

theorem encode_of_ofFields? {raw : Int} {w : Nat} (hw : w < 65536) {i : Instruction}
    (h : ofFields? (Fields.ofNat raw w) = some i) : i.encode = w := by
  have hx := Fields.val_x raw w
  have hy := Fields.val_y raw w
  have hn := Fields.val_n raw w
  have ha := Fields.val_nnn raw w
  have hb := Fields.toNat_nn raw w
  unfold ofFields? at h
  split at h <;> simp only [Fields.val_family, imp_false] at *
  case h_1 => rw [encode_of_ofSystem? h]; omega
  case h_6 | h_10 =>
    split at h
    · cases h; simp only [encode, pack]; omega
    · cases h
  case h_9 =>
    obtain ⟨op, hop, rfl⟩ := Option.map_eq_some_iff.1 h
    have := Operation.selector_of_ofSelector? hop
    simp only [encode, pack]; omega
  case h_15 => rw [encode_of_ofKey? h, pack]; omega
  case h_16 => rw [encode_of_ofMiscellany? h, pack]; omega
  all_goals cases h; simp only [encode, pack]; omega

theorem ofFields?_eq_some_iff (w : UInt16) (i : Instruction) :
    ofFields? (Fields.ofWord w) = some i ↔ i.encode = w.toNat := by
  constructor
  · exact encode_of_ofFields? w.toNat_lt
  · intro h
    rw [Fields.ofWord, ← h]
    exact ofFields?_encode _ i

theorem reads_call_iff (w : UInt16) :
    (∃ a, ofFields? (Fields.ofWord w) = some (call a)) ↔ w.toNat / 0x1000 = 0x2 := by
  simp only [ofFields?_eq_some_iff, encode]
  constructor
  · rintro ⟨a, ha⟩
    have := a.isLt
    omega
  · intro h
    refine ⟨Address.ofNat w.toNat, ?_⟩
    rw [Address.val_ofNat]
    omega

theorem reads_ret_iff (w : UInt16) : ofFields? (Fields.ofWord w) = some ret ↔ w = 0x00EE := by
  rw [ofFields?_eq_some_iff, ← UInt16.toNat_inj]
  exact eq_comm

end Instruction

end Chip8
