import Chip8.Proofs.Image
import Chip8.Proofs.Recognition
import Mathlib.Data.List.GetD
import Mathlib.Data.List.Induction

/-! Registers and memory exchange whole windows of bytes at once. The window has at most sixteen bytes and
wraps around the top of memory without meeting itself, so the exchange is that of the loop over its
bytes, and what was stored can be loaded again.

* `overlay_eq_writeAll`: a window written at once and byte by byte;
* `stored_storeRegisters`, `loaded_loadRegisters`, `spelled_storeDigits`: the three exchanges, each in the
  words of its loop and byte for byte;
* `execute_transfer`: the words `FX55`, `FX65` and `FX33`, and the way there and back. -/

namespace Chip8

namespace Memory

@[ext]
theorem ext {m m' : Memory} (h : ∀ a, m.read a = m'.read a) : m = m' := by
  refine Vector.ext fun a ha => ?_
  have hr := h a
  rw [read_eq _ _ (Address.mod_lt _), read_eq _ _ (Address.mod_lt _)] at hr
  simpa only [Nat.mod_eq_of_lt ha] using hr

/-! ## One window -/

/-- The byte at an address that lies in the window. -/
theorem read_overlay_add (m : Memory) (start : Nat) {length k : Nat} (byte : Nat → UInt8)
    (hl : length ≤ 4096) (hk : k < length) :
    (m.overlay start length byte).read (start + k) = byte k := by
  rw [read_overlay, offset_add start k (by omega), if_pos hk]

theorem read_overlay_of_outside (m : Memory) (start : Nat) {length : Nat} (byte : Nat → UInt8)
    {a : Nat} (h : ∀ k < length, a % 4096 ≠ (start + k) % 4096) :
    (m.overlay start length byte).read a = m.read a := by
  rw [read_overlay, if_neg]
  intro ho
  have ha := add_offset start (Address.ofNat a)
  rw [Address.val_ofNat] at ha
  exact h _ ho ha.symm

/-- The byte behind a window makes it longer by one. -/
theorem write_overlay (m : Memory) (start : Nat) {length : Nat} (byte : Nat → UInt8)
    (h : length < 4096) : (m.overlay start length byte).write (start + length) (byte length) =
      m.overlay start (length + 1) byte := by
  ext a
  rw [read_write, read_overlay, read_overlay]
  by_cases ha : (start + length) % 4096 = a % 4096
  · rw [if_pos ha, ← ha, offset_add start length h, if_pos (Nat.lt_succ_self length)]
  · have hne : offset start (a % 4096) ≠ length := by
      intro ho
      have hb := add_offset start (Address.ofNat a)
      rw [Address.val_ofNat, ho] at hb
      exact ha hb
    have hlt : offset start (a % 4096) < length + 1 ↔ offset start (a % 4096) < length := by omega
    simp only [if_neg ha, hlt]

theorem writeAll_concat (m : Memory) (start : Nat) (bytes : List UInt8) (b : UInt8) :
    m.writeAll start (bytes ++ [b]) = (m.writeAll start bytes).write (start + bytes.length) b := by
  induction bytes generalizing m start with
  | nil => rfl
  | cons first rest ih =>
    rw [List.cons_append, writeAll, ih, writeAll, List.length_cons, Nat.add_assoc, Nat.add_comm 1]

/-- A window that does not meet itself can be written at once or byte by byte. -/
theorem overlay_eq_writeAll (m : Memory) (start : Nat) (bytes : List UInt8)
    (h : bytes.length ≤ 4096) {byte : Nat → UInt8}
    (hb : ∀ k (hk : k < bytes.length), byte k = bytes[k]) :
    m.overlay start bytes.length byte = m.writeAll start bytes := by
  induction bytes using List.reverseRecOn with
  | nil =>
    ext a
    rw [List.length_nil, read_overlay, if_neg (Nat.not_lt_zero _), writeAll]
  | append_singleton bytes b ih =>
    rw [List.length_append, List.length_singleton] at h
    have hlt {k : Nat} (hk : k < bytes.length + 1) : k < (bytes ++ [b]).length := by
      rwa [List.length_append, List.length_singleton]
    have hlast : byte bytes.length = b := by
      rw [hb _ (hlt (Nat.lt_succ_self _)), List.getElem_concat_length rfl]
    have hinit : ∀ k (hk : k < bytes.length), byte k = bytes[k] := by
      intro k hk
      rw [hb k (hlt (Nat.lt_succ_of_lt hk)), List.getElem_append_left hk]
    rw [List.length_append, List.length_singleton, ← write_overlay m start byte (by omega),
      ih (by omega) hinit, hlast, writeAll_concat]

end Memory

namespace Machine

/-! ## Registers to memory -/

/-- `V0` to `VX`, the first in front. -/
def upTo (m : Machine) (x : Register) : List UInt8 :=
  m.registers.toList.take (x.val + 1)

theorem length_upTo (m : Machine) (x : Register) : (m.upTo x).length = x.val + 1 := by
  have hx := x.isLt
  rw [upTo, List.length_take, Vector.length_toList]
  omega

theorem overlay_eq_writeAll_upTo (m : Machine) (x : Register) :
    (m.memory.overlay m.index.toNat (x.val + 1) fun k => m.registers.toList.getD k 0) =
      m.memory.writeAll m.index.toNat (m.upTo x) := by
  have hx := x.isLt
  rw [← m.length_upTo x]
  refine Memory.overlay_eq_writeAll _ _ _ (by rw [length_upTo]; omega) ?_
  intro k hk
  rw [length_upTo] at hk
  have hlen : k < m.registers.toList.length := by
    rw [Vector.length_toList]
    omega
  simp only [upTo, List.getElem_take, List.getD_eq_getElem _ _ hlen]

/-- From the one machine to the other, `V0` to `VX` were stored: byte by byte in the window behind the
index, and nothing else in memory. Besides, the index has moved on behind the window. -/
structure Stored (m : Machine) (x : Register) (m' : Machine) : Prop where
  rest : ∃ memory index, m' = { m with memory, index, fault := none, pc := m.pc + 2 }
  memory : m'.memory = m.memory.writeAll m.index.toNat (m.upTo x)
  index : m'.index.toNat = (m.index.toNat + x.val + 1) % 65536
  inside : ∀ k : Register, k.val ≤ x.val → m'.memory.read (m.index.toNat + k.val) = m.register k
  outside : ∀ a, (∀ k ≤ x.val, a % 4096 ≠ (m.index.toNat + k) % 4096) →
    m'.memory.read a = m.memory.read a

theorem next_storeRegisters (m : Machine) (x : Register) :
    (({ m with fault := none }.storeRegisters x).bumpIndex x).next =
      { m with
        memory := m.memory.overlay m.index.toNat (x.val + 1) fun k => m.registers.toList.getD k 0
        index := UInt16.ofNat (m.index.toNat + x.val + 1)
        fault := none
        pc := m.pc + 2 } := by
  rw [next, advance, bumpIndex, storeRegisters]
  rfl

theorem stored_storeRegisters (m : Machine) (x : Register) :
    m.Stored x (({ m with fault := none }.storeRegisters x).bumpIndex x).next := by
  have hx := x.isLt
  have hloop := m.overlay_eq_writeAll_upTo x
  have hin : ∀ k : Register, k.val ≤ x.val →
      (m.memory.overlay m.index.toNat (x.val + 1) fun k => m.registers.toList.getD k 0).read
        (m.index.toNat + k.val) = m.register k := by
    intro k hk
    have hlen : k.val < m.registers.toList.length := by
      rw [Vector.length_toList]
      exact k.isLt
    rw [Memory.read_overlay_add _ _ _ (by omega) (by omega), List.getD_eq_getElem _ _ hlen,
      Vector.getElem_toList, register_eq]
  have hout : ∀ a, (∀ k ≤ x.val, a % 4096 ≠ (m.index.toNat + k) % 4096) →
      (m.memory.overlay m.index.toNat (x.val + 1) fun k => m.registers.toList.getD k 0).read a =
        m.memory.read a := by
    intro a ha
    exact Memory.read_overlay_of_outside _ _ _ fun k hk => ha k (by omega)
  rw [next_storeRegisters]
  -- What was written is as large as memory, so it is named before it is compared.
  generalize (m.memory.overlay m.index.toNat (x.val + 1) fun k => m.registers.toList.getD k 0) =
    memory at hloop hin hout ⊢
  exact ⟨⟨_, _, rfl⟩, hloop, UInt16.toNat_ofNat', hin, hout⟩

/-! ## Memory to registers -/

/-- `V0` to `VX` read from memory one after the other. -/
def loadLoop (m : Machine) (x : Register) : Machine :=
  (List.range (x.val + 1)).foldl
    (fun m k => m.setRegister (Register.ofNat k) (m.memory.read (m.index.toNat + k))) m

/-- The loop changes the registers alone, so each byte is read from where it was at first. -/
theorem foldl_loadLoop (m : Machine) {n : Nat} (h : n ≤ 16) :
    ∃ registers, (List.range n).foldl
        (fun m k => m.setRegister (Register.ofNat k) (m.memory.read (m.index.toNat + k))) m =
      { m with registers } ∧
      ∀ k : Register, registers.get k =
        if k.val < n then m.memory.read (m.index.toNat + k.val) else m.register k := by
  induction n with
  | zero => exact ⟨m.registers, rfl, fun k => rfl⟩
  | succ n ih =>
    obtain ⟨registers, hloop, hget⟩ := ih (by omega)
    rw [List.range_succ, List.foldl_append, hloop]
    refine ⟨_, rfl, fun k => ?_⟩
    have hn : (Register.ofNat n).val = n := by
      rw [Register.val_ofNat]
      omega
    refine (register_setRegister { m with registers } (Register.ofNat n) k _).trans ?_
    by_cases hk : Register.ofNat n = k
    · have hval : k.val = n := by rw [← hk, hn]
      rw [if_pos hk, if_pos (by omega), hval]
    · have hne : k.val ≠ n := fun he => hk (Fin.ext (hn.trans he.symm))
      rw [if_neg hk]
      refine (hget k).trans ?_
      by_cases hlt : k.val < n
      · rw [if_pos hlt, if_pos (by omega)]
      · rw [if_neg hlt, if_neg (by omega)]

theorem register_loadLoop (m : Machine) (x k : Register) :
    (m.loadLoop x).register k =
      if k.val ≤ x.val then m.memory.read (m.index.toNat + k.val) else m.register k := by
  have hx := x.isLt
  obtain ⟨registers, hloop, hget⟩ := m.foldl_loadLoop (n := x.val + 1) (by omega)
  rw [loadLoop, hloop]
  simp only [← Nat.lt_succ_iff]
  exact hget k

/-- From the one machine to the other, `V0` to `VX` were loaded from the window behind the index, as by
the loop, and the other registers stayed. Besides, the index has moved on behind the window. -/
structure Fetched (m : Machine) (x : Register) (m' : Machine) : Prop where
  rest : ∃ registers index, m' = { m with registers, index, fault := none, pc := m.pc + 2 }
  registers : m'.registers = (m.loadLoop x).registers
  index : m'.index.toNat = (m.index.toNat + x.val + 1) % 65536
  inside : ∀ k : Register, k.val ≤ x.val → m'.register k = m.memory.read (m.index.toNat + k.val)
  outside : ∀ k : Register, x.val < k.val → m'.register k = m.register k

theorem next_loadRegisters (m : Machine) (x : Register) :
    (({ m with fault := none }.loadRegisters x).bumpIndex x).next =
      { m with
        registers := (m.loadRegisters x).registers
        index := UInt16.ofNat (m.index.toNat + x.val + 1)
        fault := none
        pc := m.pc + 2 } := by
  rw [next, advance, bumpIndex, loadRegisters, loadRegisters]
  rfl

theorem register_loadRegisters (m : Machine) (x k : Register) :
    (m.loadRegisters x).register k =
      if k.val ≤ x.val then m.memory.read (m.index.toNat + k.val) else m.register k := by
  rw [loadRegisters, register_eq, Vector.getElem_ofFn]

theorem fetched_loadRegisters (m : Machine) (x : Register) :
    m.Fetched x (({ m with fault := none }.loadRegisters x).bumpIndex x).next := by
  have hreg := m.register_loadRegisters x
  have hloop : (m.loadRegisters x).registers = (m.loadLoop x).registers := by
    refine Vector.ext fun k hk => ?_
    exact (hreg ⟨k, hk⟩).trans (m.register_loadLoop x ⟨k, hk⟩).symm
  rw [next_loadRegisters]
  refine ⟨⟨_, _, rfl⟩, hloop, UInt16.toNat_ofNat', ?_, ?_⟩
  · intro k hk
    exact (hreg k).trans (if_pos hk)
  · intro k hk
    exact (hreg k).trans (if_neg (by omega))

/-! ## Decimal digits -/

/-- From the one machine to the other, the digits of `VX` were written behind the index, one after the
other, and nothing else in memory. -/
structure Spelled (m : Machine) (x : Register) (hundreds tens ones : UInt8) (m' : Machine) : Prop where
  rest : ∃ memory, m' = { m with memory, fault := none, pc := m.pc + 2 }
  value : 100 * hundreds.toNat + 10 * tens.toNat + ones.toNat = (m.register x).toNat
  digits : hundreds.toNat ≤ 2 ∧ tens.toNat ≤ 9 ∧ ones.toNat ≤ 9
  memory : m'.memory = m.memory.writeAll m.index.toNat [hundreds, tens, ones]
  inside : m'.memory.read m.index.toNat = hundreds ∧
    m'.memory.read (m.index.toNat + 1) = tens ∧ m'.memory.read (m.index.toNat + 2) = ones
  outside : ∀ a, (∀ k ≤ 2, a % 4096 ≠ (m.index.toNat + k) % 4096) →
    m'.memory.read a = m.memory.read a

theorem digits_value (byte : UInt8) :
    100 * (byte / 100).toNat + 10 * (byte / 10 % 10).toNat + (byte % 10).toNat = byte.toNat ∧
      (byte / 100).toNat ≤ 2 ∧ (byte / 10 % 10).toNat ≤ 9 ∧ (byte % 10).toNat ≤ 9 := by
  have hb := byte.toNat_lt
  simp only [UInt8.toNat_div, UInt8.toNat_mod, UInt8.reduceToNat]
  omega

theorem next_storeDigits (m : Machine) (x : Register) :
    ({ m with fault := none }.storeDigits x).next =
      { m with
        memory := m.memory.overlay m.index.toNat 3 (decimalDigits (m.register x))
        fault := none
        pc := m.pc + 2 } := by
  rw [next, advance, storeDigits]
  rfl

theorem spelled_storeDigits (m : Machine) (x : Register) : ∃ hundreds tens ones,
    m.Spelled x hundreds tens ones ({ m with fault := none }.storeDigits x).next := by
  obtain ⟨hvalue, hdigits⟩ := digits_value (m.register x)
  let digit := decimalDigits (m.register x)
  have hloop : m.memory.overlay m.index.toNat 3 digit =
      m.memory.writeAll m.index.toNat [digit 0, digit 1, digit 2] := by
    refine Memory.overlay_eq_writeAll _ _ [digit 0, digit 1, digit 2] (by simp) ?_
    intro k hk
    match k, hk with
    | 0, _ | 1, _ | 2, _ => rfl
  have hin : ∀ k < 3, (m.memory.overlay m.index.toNat 3 digit).read (m.index.toNat + k) =
      digit k := by
    intro k hk
    rw [Memory.read_overlay_add _ _ _ (by omega) hk]
  have hout : ∀ a, (∀ k ≤ 2, a % 4096 ≠ (m.index.toNat + k) % 4096) →
      (m.memory.overlay m.index.toNat 3 digit).read a = m.memory.read a := by
    intro a ha
    exact Memory.read_overlay_of_outside _ _ _ fun k hk => ha k (by omega)
  rw [next_storeDigits]
  generalize m.memory.overlay m.index.toNat 3 digit = memory at hloop hin hout ⊢
  exact ⟨digit 0, digit 1, digit 2, ⟨_, rfl⟩, hvalue, hdigits, hloop,
    ⟨hin 0 (by omega), hin 1 (by omega), hin 2 (by omega)⟩, hout⟩

/-! ## The instructions -/

/-- Whatever a word was cut from and wherever the index points: `FX55`, `FX65` and `FX33` are their loops.
So registers that were stored come back when they are loaded from the same place, whatever has become
of them in between, and the others are left as they are. -/
theorem execute_transfer (m : Machine) (raw : Int) (x : Register) :
    m.Stored x (m.execute (.ofNat raw (Instruction.store x).encode)) ∧
    m.Fetched x (m.execute (.ofNat raw (Instruction.load x).encode)) ∧
    (∃ hundreds tens ones,
      m.Spelled x hundreds tens ones (m.execute (.ofNat raw (Instruction.digits x).encode))) ∧
    ∀ registers k,
      ({ m.execute (.ofNat raw (Instruction.store x).encode) with registers, index := m.index }.execute
          (.ofNat raw (Instruction.load x).encode)).register k =
        if k.val ≤ x.val then m.register k else registers.get k := by
  have hstored : m.Stored x (m.execute (.ofNat raw (Instruction.store x).encode)) := by
    rw [execute_of_reads m (Instruction.ofFields?_encode raw _), perform]
    exact m.stored_storeRegisters x
  have hfetched : ∀ m : Machine,
      m.Fetched x (m.execute (.ofNat raw (Instruction.load x).encode)) := by
    intro m
    rw [execute_of_reads m (Instruction.ofFields?_encode raw _), perform]
    exact m.fetched_loadRegisters x
  refine ⟨hstored, hfetched m, ?_, ?_⟩
  · rw [execute_of_reads m (Instruction.ofFields?_encode raw _), perform]
    exact m.spelled_storeDigits x
  · intro registers k
    have hback := hfetched
      { m.execute (.ofNat raw (Instruction.store x).encode) with registers, index := m.index }
    by_cases hk : k.val ≤ x.val
    · rw [if_pos hk, hback.inside k hk]
      exact hstored.inside k hk
    · rw [if_neg hk]
      exact hback.outside k (by omega)

end Machine

end Chip8
