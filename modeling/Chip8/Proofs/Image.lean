import Chip8.Machine.Cycle
import Chip8.Machine.Load

/-! What memory holds at power-on and after a load, read one byte at a time, and the words that a
machine fetches from it. -/

namespace Chip8

namespace Memory

theorem read_congr (m : Memory) {a b : Nat} (h : a % 4096 = b % 4096) : m.read a = m.read b := by
  rw [read_eq _ _ (Address.mod_lt _), read_eq _ _ (Address.mod_lt _)]
  simp only [h]

theorem read_blank (a : Nat) : blank.read a = 0 := by
  rw [read_eq _ _ (Address.mod_lt _), blank, Vector.getElem_replicate]

/-- Above the font, memory starts out as zeros. -/
theorem read_initial {a : Nat} (h : font.length ≤ a % 4096) : initial.read a = 0 := by
  have ho : offset 0 (a % 4096) = a % 4096 := by
    unfold offset
    omega
  rw [initial, read_overlay, ho, if_neg (by omega), read_blank]

end Memory

namespace Machine

/-- Twelve bits of the program counter count. -/
theorem fetch_eq (m : Machine) {a : Nat} (h : m.pc.toNat % 4096 = a % 4096) :
    m.fetch = UInt16.ofNat (256 * (m.memory.read a).toNat + (m.memory.read (a + 1)).toNat) := by
  have hs : (m.pc.toNat + 1) % 4096 = (a + 1) % 4096 := by omega
  rw [fetch, m.memory.read_congr h, m.memory.read_congr hs]

theorem fetch_congr {m m' : Machine} (hm : m'.memory = m.memory) (hp : m'.pc = m.pc) :
    m'.fetch = m.fetch := by
  rw [fetch, fetch, hm, hp]

theorem fetch_initial (key : Random.Key) : (initial key).fetch = 0 := by
  show UInt16.ofNat (256 * (Memory.initial.read 512).toNat + (Memory.initial.read 513).toNat) = 0
  rw [Memory.read_initial (by decide), Memory.read_initial (by decide)]
  rfl

/-! ## Loaded images -/

/-- The memory of a machine behind a load. -/
def withImage (m : Memory) (image : List UInt8) : Memory :=
  m.overlay programStart image.toArray.size fun k => image.toArray.getD k 0

/-- The machine behind a load. -/
def loaded (m : Machine) (image : List UInt8) : Machine :=
  { m with memory := withImage m.memory image, pc := UInt16.ofNat programStart }

theorem loadImage_of_le (m : Machine) {image : List UInt8} (h : image.length ≤ maxProgramSize) :
    m.loadImage image = .ok (m.loaded image) := by
  have hb : ¬ ((programStart : Int) < 0 ∨ (Memory.size : Int) < programStart + image.length) := by
    simp only [maxProgramSize, Memory.size, programStart] at h ⊢
    omega
  rw [loadImage, if_neg (by omega), writeImage, if_neg hb]
  rfl

theorem read_withImage (m : Memory) {image : List UInt8} {k : Nat} (hk : k < image.length)
    (h : image.length ≤ maxProgramSize) :
    (withImage m image).read (programStart + k) = image[k] := by
  have ho : Memory.offset programStart ((programStart + k) % 4096) = k :=
    Memory.offset_add _ _ (by simp only [maxProgramSize, Memory.size] at h; omega)
  rw [withImage, Memory.read_overlay, ho, List.size_toArray, if_pos hk]
  simp [hk]

/-- The word that a machine fetches inside an image. -/
theorem fetch_withImage {m : Machine} {memory : Memory} {image : List UInt8} {k : Nat}
    (hm : m.memory = withImage memory image) (hp : m.pc.toNat = programStart + k)
    (hk : k + 1 < image.length) (h : image.length ≤ maxProgramSize) :
    m.fetch = UInt16.ofNat (256 * image[k].toNat + image[k + 1].toNat) := by
  rw [fetch, hm, hp, Nat.add_assoc, read_withImage memory (Nat.lt_of_succ_lt hk) h,
    read_withImage memory hk h]

theorem memory_loaded (m : Machine) (image : List UInt8) :
    (m.loaded image).memory = withImage m.memory image := by
  rw [loaded]

theorem mode_loaded (m : Machine) (image : List UInt8) : (m.loaded image).mode = m.mode := by
  rw [loaded]

theorem screen_loaded (m : Machine) (image : List UInt8) : (m.loaded image).screen = m.screen := by
  rw [loaded]

theorem redraw_loaded (m : Machine) (image : List UInt8) : (m.loaded image).redraw = m.redraw := by
  rw [loaded]

theorem keys_loaded (m : Machine) (image : List UInt8) : (m.loaded image).keys = m.keys := by
  rw [loaded]

theorem pc_loaded (m : Machine) (image : List UInt8) : (m.loaded image).pc = 0x200 := by
  rw [loaded]
  rfl

theorem fetch_loaded (m : Machine) {high low : UInt8} {rest : List UInt8}
    (h : (high :: low :: rest).length ≤ maxProgramSize) :
    (m.loaded (high :: low :: rest)).fetch = UInt16.ofNat (256 * high.toNat + low.toNat) := by
  have hk : 0 + 1 < (high :: low :: rest).length := Nat.succ_lt_succ (Nat.succ_pos _)
  exact fetch_withImage (memory_loaded m _) (by rw [pc_loaded]; rfl) hk h

end Machine

end Chip8
