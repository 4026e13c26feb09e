/-! The operand fields of an instruction word. A word is read off any integer by its low 16 bits,
in two's complement, so a host may hand over a signed or an oversized number. -/

namespace Chip8

abbrev Address := Fin 4096

/-- Sixteen registers, and as many keys and values of a nibble. -/
abbrev Register := Fin 16

theorem Address.mod_lt (n : Nat) : n % 4096 < 4096 := Nat.mod_lt n (by decide)

theorem Register.mod_lt (n : Nat) : n % 16 < 16 := Nat.mod_lt n (by decide)

theorem Register.val_lt (x : Register) : x.val < 16 := x.isLt

/-- The address a number names when its upper bits are left out. -/
def Address.ofNat (n : Nat) : Address := ⟨n % 4096, mod_lt n⟩

/-- The lowest nibble of a number. -/
def Register.ofNat (n : Nat) : Register := ⟨n % 16, mod_lt n⟩

@[simp]
theorem Address.val_ofNat (n : Nat) : (Address.ofNat n).val = n % 4096 := rfl

@[simp]
theorem Register.val_ofNat (n : Nat) : (Register.ofNat n).val = n % 16 := rfl

/-- `VF`, which doubles as the carry, borrow and collision flag. -/
def flagRegister : Register := Register.ofNat 15

/-- The fields overlap: `nnn` holds `x` and `nn`, and `nn` holds `y` and `n`. Only `raw` keeps
the number as it was given. -/
structure Fields where
  raw : Int
  family : Register
  x : Register
  y : Register
  n : Register
  nn : UInt8
  nnn : Address
deriving DecidableEq, Repr

namespace Fields

def ofNat (raw : Int) (word : Nat) : Fields where
  raw := raw
  family := Register.ofNat (word / 4096)
  x := Register.ofNat (word / 256)
  y := Register.ofNat (word / 16)
  n := Register.ofNat word
  nn := UInt8.ofNat word
  nnn := Address.ofNat word

def ofInt (i : Int) : Fields :=
  ofNat i (i % 65536).toNat

def ofWord (w : UInt16) : Fields :=
  ofNat w.toNat w.toNat

/-- The word the fields were cut from. -/
def word (f : Fields) : Nat :=
  4096 * f.family.val + f.nnn.val

theorem ofInt_ofNat (w : UInt16) : ofInt w.toNat = ofWord w := by
  have h := w.toNat_lt
  simp only [ofInt, ofWord]
  congr 1
  omega

theorem word_ofNat (raw : Int) (w : Nat) (h : w < 65536) : (ofNat raw w).word = w := by
  simp only [word, ofNat, Register.val_ofNat, Address.val_ofNat]
  omega

end Fields

end Chip8
