import Chip8.Proofs.FrameLaw
import Chip8.Proofs.History

/-! The random stream. `CXNN` alone moves the random key, and it moves it by one; the key goes back to the
start with a reset and not otherwise. So the byte behind the mask of a draw is settled by the seed and by
how many draws came before it, whatever else was executed between them. -/

namespace Chip8

/-- The byte of draw number `k` after a start from a seed. -/
def Random.drawn (seed : Int) (k : Nat) : UInt8 :=
  ((Key.ofSeed seed).after k).byte

namespace Machine

/-- The next cycle executes a `CXNN`. -/
def draws (m : Machine) : Bool :=
  m.mode = .running ∧ m.fetch.toNat / 0x1000 = 0xC

theorem draws_iff (m : Machine) :
    m.draws = true ↔ m.mode = .running ∧ m.fetch.toNat / 0x1000 = 0xC :=
  decide_eq_true_iff

/-- The word of a draw, put together from its register and its mask. -/
theorem fetch_of_draws {m : Machine} (h : m.draws = true) :
    ∃ (x : Register) (mask : UInt8), m.fetch.toNat = 0xC000 + 0x100 * x.val + mask.toNat := by
  obtain ⟨-, hf⟩ := m.draws_iff.1 h
  refine ⟨Register.ofNat (m.fetch.toNat / 0x100), UInt8.ofNat m.fetch.toNat, ?_⟩
  rw [Register.val_ofNat, UInt8.toNat_ofNat']
  omega

theorem step_of_draws {m : Machine} (h : m.draws = true) {x : Register} {mask : UInt8}
    (hw : m.fetch.toNat = 0xC000 + 0x100 * x.val + mask.toNat) :
    m.step = ({ m with fault := none }.drawRandom x mask).next := by
  have hi : m.current? = some (.random x mask) := by
    rw [current?, Instruction.ofFields?_eq_some_iff, hw, Instruction.encode, Instruction.pack]
    omega
  rw [step_of_current (m.draws_iff.1 h).1 hi, perform]

theorem rng_loaded (m : Machine) (image : List UInt8) : (m.loaded image).rng = m.rng := by
  rw [loaded]

theorem rng_step (m : Machine) : m.step.rng = if m.draws then m.rng.next else m.rng := by
  split
  · obtain ⟨x, mask, hw⟩ := fetch_of_draws ‹_›
    rw [step_of_draws ‹_› hw]
    rfl
  · by_cases hr : m.mode = .running
    · rw [step_of_running hr]
      refine same_execute m .random ?_
      rintro ⟨p, hp, hm⟩
      obtain rfl := List.mem_singleton.1 hp
      exact ‹¬ m.draws = true› (m.draws_iff.2 ⟨hr, hm.1⟩)
    · have ho := step_outcome m
      generalize m.step = m' at ho ⊢
      cases ho with
      | idle | waiting | woken => rfl
      | _ => exact absurd ‹m.mode = .running› hr

end Machine

/-- The machine that a draw came to, for a deed that is one. -/
def Deed.draw? : Deed → Option Machine
  | .cycle m => if m.draws then some m else none
  | _ => none

/-- The machines at the draws since the last reset, in order. -/
def History.draws (h : History) : List Machine :=
  h.recent.filterMap Deed.draw?

theorem History.draws_add (h : History) (d : Deed) :
    (h.add d).draws = h.draws ++ d.draw?.toList := by
  rw [draws, add, List.filterMap_append]
  rfl

theorem History.draws_reset (h : History) : h.reset.draws = [] := rfl

/-! ## The key against the history -/

namespace Supervisor

/-- The keys of a supervisor and of the draws behind it, all from one seed. -/
structure Keyed (seed : Int) (s : Supervisor) (h : History) : Prop where
  start : s.key = .ofSeed seed
  key : s.machine.rng = (Random.Key.ofSeed seed).after h.draws.length
  draw : ∀ k m, h.draws[k]? = some m →
    m.draws = true ∧ m.rng = (Random.Key.ofSeed seed).after k

theorem Keyed.undrawn {seed : Int} {s s' : Supervisor} {h h' : History} (hs : s.Keyed seed h)
    (hk : s'.key = s.key) (hr : s'.machine.rng = s.machine.rng) (hd : h'.draws = h.draws) :
    s'.Keyed seed h' where
  start := hk.trans hs.start
  key := by rw [hr, hd, hs.key]
  draw k m := by
    rw [hd]
    exact hs.draw k m

theorem Keyed.cycle {seed : Int} {s : Supervisor} {h : History} (hs : s.Keyed seed h) :
    s.step.1.Keyed seed (h.add (.cycle s.machine)) := by
  have hr := s.machine.rng_step
  rw [← machine_step] at hr
  cases hd : s.machine.draws with
  | false =>
    rw [hd, if_neg Bool.false_ne_true] at hr
    refine hs.undrawn s.key_step hr ?_
    simp [History.draws_add, Deed.draw?, hd]
  | true =>
    have hadd : (h.add (.cycle s.machine)).draws = h.draws ++ [s.machine] := by
      simp [History.draws_add, Deed.draw?, hd]
    refine ⟨s.key_step.trans hs.start, ?_, fun k m hk => ?_⟩
    · rw [hr, hd, if_pos rfl, hs.key, hadd, List.length_append]
      rfl
    · rw [hadd, List.getElem?_append] at hk
      split at hk
      · exact hs.draw k m hk
      · -- the only place behind the earlier draws is the first one
        obtain ⟨hz, rfl⟩ := List.getElem?_eq_some_iff.1 hk
        rw [List.length_singleton] at hz
        obtain rfl : k = h.draws.length := by omega
        simpa using ⟨hd, hs.key⟩

theorem key_reset (s : Supervisor) : s.reset.key = s.key := by
  unfold reset note
  with_reducible rfl

theorem followed_keyed (seed : Int) : Followed (Keyed seed) where
  cycle hs := hs.cycle
  halt {s h} hs := by
    have hd : (h.add (.halt s.machine)).draws = h.draws := by simp [History.draws_add, Deed.draw?]
    obtain ⟨journal, mode, he⟩ := s.halt_only
    rw [he]
    exact hs.undrawn rfl rfl hd
  resume {s h} hs := by
    have hd : (h.add (.resume s.machine)).draws = h.draws := by
      simp [History.draws_add, Deed.draw?]
    obtain ⟨journal, mode, fault, he⟩ := s.resume_only
    rw [he]
    exact hs.undrawn rfl rfl hd
  load hs image size source := hs.undrawn rfl (Machine.rng_loaded _ image) rfl
  host hs delay sound keys redraw := hs.undrawn rfl rfl rfl
  ran hs cycles elapsed := hs.undrawn rfl rfl rfl
  reset {s h} hs := by
    refine ⟨s.key_reset.trans hs.start, ?_, fun k m hk => ?_⟩
    · rw [machine_reset, hs.start, h.draws_reset]
      rfl
    · rw [h.draws_reset] at hk
      cases hk

/-- What a supervisor's random stream is, by the seed and the draws since the last reset: the key is the
seed's key moved on once for each of them, and each of them wrote its byte, behind its mask, to its
register. -/
structure Streams (seed : Int) (s : Supervisor) (h : History) : Prop where
  key : s.machine.rng = (Random.Key.ofSeed seed).after h.draws.length
  written : ∀ k m, h.draws[k]? = some m → ∃ (x : Register) (mask : UInt8),
    m.fetch.toNat = 0xC000 + 0x100 * x.val + mask.toNat ∧
      m.step.register x = Random.drawn seed k &&& mask ∧ m.step.register x &&& ~~~mask = 0

theorem Keyed.streams {seed : Int} {s : Supervisor} {h : History} (hs : s.Keyed seed h) :
    s.Streams seed h where
  key := hs.key
  written k m hk := by
    obtain ⟨hd, hr⟩ := hs.draw k m hk
    obtain ⟨x, mask, hw⟩ := Machine.fetch_of_draws hd
    have hx : m.step.register x = Random.drawn seed k &&& mask := by
      rw [Machine.step_of_draws hd hw, Random.drawn, ← hr]
      exact (Machine.register_setRegister _ x x _).trans (if_pos rfl)
    refine ⟨x, mask, hw, hx, ?_⟩
    rw [hx, UInt8.and_assoc, UInt8.and_not_self, UInt8.and_zero]

/-- Every seed that 64 bits hold with its sign makes a supervisor, and the random stream of that
supervisor depends on nothing but the seed and the number of draws. -/
theorem random_stream {seed : Nat} (h : seed < 0x8000000000000000) (strict : Bool)
    (journal : Journal) : ∃ s, create (.integer seed) strict (.ok journal) = .ok s ∧
      ∀ calls, (s.afterCalls calls).Streams seed (s.history calls) := by
  refine ⟨_, create_ok h strict journal, fun calls => ?_⟩
  refine ((followed_keyed seed).history ⟨key_reset _, ?_, fun k m hk => ?_⟩ calls).streams
  · rw [machine_reset]
    rfl
  · cases hk

/-- One draw, `C50F`, behind a load: the first byte of seed 7 goes to `V5` as far as its low half. -/
theorem random_stream_once :
    7 < 0x8000000000000000 ∧ ∃ s, create (.integer 7) true (.ok {}) = .ok s ∧
      let s' := s.afterCalls [.load (.bytes [0xC5, 0x0F]) none, .step]
      s'.machine.rng = (Random.Key.ofSeed 7).next ∧
        s'.machine.register 5 = Random.drawn 7 0 &&& 0x0F := by
  refine ⟨by decide, ?_⟩
  obtain ⟨s, hs, h⟩ := random_stream (show 7 < 0x8000000000000000 by decide) true {}
  refine ⟨s, hs, ?_⟩
  have hl : (s.load (.bytes [0xC5, 0x0F]) none).1.machine = s.machine.loaded [0xC5, 0x0F] :=
    (load_of_le s rfl (by decide) none).1
  have hf : (s.machine.loaded [0xC5, 0x0F]).fetch = 0xC50F := Machine.fetch_loaded _ (by decide)
  have hm : (s.machine.loaded [0xC5, 0x0F]).mode = .running := by
    obtain ⟨key, hk⟩ := machine_create hs
    rw [hk, Machine.mode_loaded]
    rfl
  have hd : (s.machine.loaded [0xC5, 0x0F]).draws = true := by
    rw [Machine.draws_iff, hf]
    exact ⟨hm, rfl⟩
  have hh : (s.history [.load (.bytes [0xC5, 0x0F]) none, .step]).draws =
      [s.machine.loaded [0xC5, 0x0F]] := by
    show [Deed.cycle (s.load (.bytes [0xC5, 0x0F]) none).1.machine].filterMap Deed.draw? = _
    rw [hl]
    simp [Deed.draw?, hd]
  obtain ⟨hkey, hwritten⟩ := h [.load (.bytes [0xC5, 0x0F]) none, .step]
  rw [hh] at hkey
  obtain ⟨x, mask, hw, hx, -⟩ := hwritten 0 _ (by rw [hh]; rfl)
  have hn : 0xC50F = 0xC000 + 0x100 * x.val + mask.toNat := by rw [← hw, hf]; rfl
  have hmask := mask.toNat_lt
  obtain rfl : x = 5 := Fin.ext (show x.val = 5 by omega)
  obtain rfl : mask = 0x0F := UInt8.toNat_inj.1 (show mask.toNat = 0x0F by omega)
  refine ⟨hkey, Eq.trans ?_ hx⟩
  show (s.load (.bytes [0xC5, 0x0F]) none).1.step.1.machine.register 5 = _
  rw [machine_step, hl]

end Supervisor

end Chip8
