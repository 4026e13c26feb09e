import Chip8.Proofs.FrameLaw
import Chip8.Proofs.Image

/-! Programs without branches. A straight word leaves the memory and the mode alone and goes on with the
word behind it, so a machine at the start of a line of such words executes one after the other. That the
line may fill memory to its last byte, and may hold undefined words, makes no difference.

* `step_of_straight`: one word of a line;
* `run_of_spells`: a whole line, wherever it lies;
* `run_straight`: a line that has just been loaded. -/

namespace Chip8

/-- The words that may branch, wait or write to memory. -/
def departures : List Pattern :=
  [.jump, .call, .jumpOffset, .ret, .skipEqualByte, .skipUnequalByte, .skipEqual, .skipUnequal,
    .skipPressed, .skipReleased, .awaitKey,
    ⟨0xF, none, some 0x3, some 0x3⟩, -- FX33
    ⟨0xF, none, some 0x5, some 0x5⟩] -- FX55

def Straight (w : UInt16) : Prop := ¬ Pattern.Among departures w.toNat

instance (w : UInt16) : Decidable (Straight w) :=
  inferInstanceAs (Decidable (¬ _))

theorem Straight.not_among {w : UInt16} {ps : List Pattern} (h : Straight w)
    (hps : ps ⊆ departures) : ¬ Pattern.Among ps w.toNat := by
  rintro ⟨p, hp, hm⟩
  exact h ⟨p, hps hp, hm⟩

/-- The words as they lie in memory, each with its high byte first. -/
def bigEndian : List UInt16 → List UInt8
  | [] => []
  | w :: ws => UInt8.ofNat (w.toNat / 256) :: UInt8.ofNat (w.toNat % 256) :: bigEndian ws

theorem length_bigEndian (ws : List UInt16) : (bigEndian ws).length = 2 * ws.length := by
  induction ws with
  | nil => rfl
  | cons w ws ih => simp only [bigEndian, List.length_cons, ih]; omega

theorem ofNat_high_low (w : UInt16) :
    UInt16.ofNat (256 * (UInt8.ofNat (w.toNat / 256)).toNat + (UInt8.ofNat (w.toNat % 256)).toNat)
      = w := by
  have hw := w.toNat_lt
  apply UInt16.toNat_inj.1
  simp only [UInt16.toNat_ofNat', UInt8.toNat_ofNat']
  omega

/-- From `a` on, the memory spells these words. -/
def Memory.Spells (memory : Memory) (a : Nat) : List UInt16 → Prop
  | [] => True
  | w :: ws =>
    UInt16.ofNat (256 * (memory.read a).toNat + (memory.read (a + 1)).toNat) = w ∧
      memory.Spells (a + 2) ws

theorem Memory.spells_bigEndian {memory : Memory} {a : Nat} {ws : List UInt16}
    (h : ∀ k (hk : k < (bigEndian ws).length), memory.read (a + k) = (bigEndian ws)[k]) :
    memory.Spells a ws := by
  induction ws generalizing a with
  | nil => trivial
  | cons w ws ih =>
    have hl : (bigEndian (w :: ws)).length = (bigEndian ws).length + 2 := rfl
    refine ⟨?_, ih fun k hk => ?_⟩
    · have hhigh : memory.read a = UInt8.ofNat (w.toNat / 256) := h 0 (by omega)
      have hlow : memory.read (a + 1) = UInt8.ofNat (w.toNat % 256) := h 1 (by omega)
      rw [hhigh, hlow, ofNat_high_low]
    · rw [Nat.add_assoc, Nat.add_comm 2 k]
      exact h (k + 2) (by omega)

namespace Machine

/-- The words found at the program counter by each of the next `n` cycles. -/
def words (m : Machine) : Nat → List UInt16
  | 0 => []
  | n + 1 => m.fetch :: m.step.words n

/-! ## One straight word -/

variable {m : Machine} {w : UInt16}

theorem not_skips_of_straight (h : Straight w) : ¬ m.Skips w := by
  intro hs
  obtain ⟨i, hi⟩ := hs.spelled
  have hi' := (skips_iff hi).1 hs
  refine h ((Instruction.among_iff hi (by decide)).2 ?_)
  cases i with
  | skipEqualByte | skipUnequalByte | skipEqual | skipUnequal | skipPressed | skipReleased =>
    exact of_decide_eq_true rfl
  | _ => cases hi'

theorem not_stopsAt_of_straight (h : Straight w) : ¬ m.StopsAt w := by
  rintro (hp | ⟨hp, -⟩ | ⟨hp, -⟩) <;> exact h ⟨_, by decide, hp⟩

theorem memory_execute_of_straight (m : Machine) (h : Straight w) :
    (m.execute (.ofWord w)).memory = m.memory :=
  m.same_execute .memory (h.not_among (by decide))

theorem pc_execute_of_straight (m : Machine) (h : Straight w) :
    (m.execute (.ofWord w)).pc = m.pc + 2 :=
  pc_execute_of_next (h.not_among (by decide)) (not_skips_of_straight h)

/-! ## A line of them -/

theorem run_of_spells {ws : List UInt16} (hr : m.mode = .running) (hs : ∀ w ∈ ws, Straight w)
    (hm : m.memory.Spells m.pc.toNat ws) (hpc : m.pc.toNat + 2 * ws.length ≤ 0x1000) :
    m.run ws.length = ws.foldl (fun m w => m.execute (.ofWord w)) m ∧ m.words ws.length = ws ∧
      (m.run ws.length).pc.toNat = m.pc.toNat + 2 * ws.length := by
  induction ws generalizing m with
  | nil => exact ⟨rfl, rfl, rfl⟩
  | cons w ws ih =>
    obtain ⟨hw, hs⟩ := List.forall_mem_cons.1 hs
    obtain ⟨hf, hm⟩ := hm
    rw [List.length_cons] at hpc
    have hstep : m.step = m.execute (.ofWord w) := by rw [step_of_running hr, fetch, hf]
    have hpc' : m.step.pc.toNat = m.pc.toNat + 2 := by
      rw [hstep, pc_execute_of_straight m hw, UInt16.toNat_add]
      show (m.pc.toNat + 2) % 65536 = _
      omega
    -- the line behind `w` is still there, and the machine behind `w` is at its start
    obtain ⟨hrun, hwords, hend⟩ := ih (m := m.step)
      (by rw [hstep, mode_execute m (not_stopsAt_of_straight hw), hr]) hs
      (by rw [hpc', hstep, memory_execute_of_straight m hw]; exact hm) (by omega)
    refine ⟨?_, ?_, ?_⟩
    · rw [List.length_cons, run, hrun, List.foldl_cons, hstep]
    · rw [List.length_cons, words, hwords, fetch, hf]
    · rw [List.length_cons, run, hend, hpc']
      omega

theorem run_straight (m : Machine) (hr : m.mode = .running) (ws : List UInt16)
    (hl : ws.length ≤ 1792) (hs : ∀ w ∈ ws, Straight w) :
    ∃ p, m.load (.bytes (bigEndian ws)) = .ok p ∧
      p.run ws.length = ws.foldl (fun m w => m.execute (.ofWord w)) p ∧
      p.words ws.length = ws ∧ (p.run ws.length).pc.toNat = 0x200 + 2 * ws.length := by
  have himage : (bigEndian ws).length ≤ maxProgramSize := by
    rw [length_bigEndian, maxProgramSize, Memory.size, programStart]
    omega
  have hpc : (m.loaded (bigEndian ws)).pc.toNat = 0x200 := by rw [pc_loaded]; rfl
  have hm : (m.loaded (bigEndian ws)).memory.Spells (m.loaded (bigEndian ws)).pc.toNat ws := by
    rw [hpc, memory_loaded]
    exact Memory.spells_bigEndian fun k hk => read_withImage m.memory hk himage
  refine ⟨m.loaded (bigEndian ws), m.loadImage_of_le himage, ?_⟩
  have h := run_of_spells (by rw [mode_loaded, hr]) hs hm (by omega)
  rw [hpc] at h
  exact h

/-- Two additions with an undefined word between them. -/
def additions : List UInt16 := [0x6A05, 0x5A01, 0x7A03]

theorem run_straight_additions :
    (initial (.ofSeed 0)).mode = .running ∧ additions.length ≤ 1792 ∧
      (∀ w ∈ additions, Straight w) ∧
      ∃ p, (initial (.ofSeed 0)).load (.bytes (bigEndian additions)) = .ok p ∧
        p.run additions.length = additions.foldl (fun m w => m.execute (.ofWord w)) p ∧
        p.words additions.length = additions ∧
        (p.run additions.length).pc.toNat = 0x200 + 2 * additions.length := by
  have hr : (initial (.ofSeed 0)).mode = .running := rfl
  have hl : additions.length ≤ 1792 := by simp [additions]
  have hs : ∀ w ∈ additions, Straight w := by
    simp only [additions, List.forall_mem_cons]
    exact ⟨by decide, by decide, by decide, List.forall_mem_nil _⟩
  exact ⟨hr, hl, hs, run_straight _ hr _ hl hs⟩

end Machine

end Chip8
