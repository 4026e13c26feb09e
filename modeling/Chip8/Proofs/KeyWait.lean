import Chip8.Machine.Input
import Chip8.Proofs.Cycle
import Chip8.Proofs.Image

/-! A key wait, from the instruction that begins it to the poll that ends it, under any inputs between
the cycles. While the machine waits, the keypad it remembers is the one that the cycle before found. So
what counts is not what was pressed, but what one cycle finds down and the cycle before it did not.

* `waits_of_noPress`: a run of cycles that find no such key changes nothing but the remembered keypad;
* `wakes_of_press`: a cycle that finds one fills the register with the lowest and runs again;
* `key_wait`: both together, for every schedule of inputs. -/

namespace Chip8

/-- Every key that is down on `k` is down on `k'`. -/
def Keypad.Within (k k' : Keypad) : Prop :=
  ∀ i, k.get i = true → k'.get i = true

/-- What comes in before each of the cycles to come. -/
abbrev Schedule := Nat → List Input

namespace Machine

theorem input_eq (m : Machine) (i : Input) :
    ∃ delay sound keys, m.input i = { m with delay, sound, keys } := by
  cases i with
  | key key pressed =>
    simp only [input, input?]
    cases Argument.key key <;> exact ⟨_, _, _, rfl⟩
  | keypad states =>
    simp only [input, input?]
    cases Argument.keypad states <;> exact ⟨_, _, _, rfl⟩
  | release => exact ⟨_, _, _, rfl⟩
  | tick => exact ⟨_, _, _, rfl⟩

theorem inputs_eq (m : Machine) (is : List Input) :
    ∃ delay sound keys, m.inputs is = { m with delay, sound, keys } := by
  induction is generalizing m with
  | nil => exact ⟨_, _, _, rfl⟩
  | cons i rest ih =>
    obtain ⟨_, _, _, hi⟩ := m.input_eq i
    obtain ⟨delay, sound, keys, hr⟩ := ih (m.input i)
    refine ⟨delay, sound, keys, hr.trans ?_⟩
    rw [hi]

/-- The machine after `n` cycles of a schedule. -/
def follow (m : Machine) (schedule : Schedule) : Nat → Machine
  | 0 => m
  | n + 1 => ((m.follow schedule n).inputs (schedule n)).step

/-- What the next cycle finds after `n` cycles of a schedule. -/
def found (m : Machine) (schedule : Schedule) (n : Nat) : Machine :=
  (m.follow schedule n).inputs (schedule n)

/-- The keypad that the instruction at hand finds, and those that the cycles after it find. -/
def keypadAt (m : Machine) (schedule : Schedule) : Nat → Keypad
  | 0 => m.keys
  | n + 1 => (m.step.found schedule n).keys

/-- None of the first `n` cycles finds a key that the cycle before it did not find. -/
def NoPress (m : Machine) (schedule : Schedule) (n : Nat) : Prop :=
  ∀ j, j < n → (m.keypadAt schedule (j + 1)).Within (m.keypadAt schedule j)

/-- Waiting to fill `x`, with `polled` as the keypad of the cycle before. -/
def awaiting (m : Machine) (x : Register) (polled : Keypad) : Machine :=
  { m with fault := none, mode := .blocked, waitRegister := UInt8.ofNat x, waitKeys := polled }

/-- The machine with `x` filled by a key, running behind its wait. -/
def woken (m : Machine) (x key : Register) : Machine :=
  { m.setRegister x (UInt8.ofNat key) with
    pc := m.pc + 2, mode := .running, waitKeys := Keypad.released }

theorem step_eq_awaiting {m : Machine} (hr : m.mode = .running) {x : Register}
    (hw : m.fetch.toNat = 0xF00A + 0x100 * x) : m.step = m.awaiting x m.keys := by
  apply step_of_awaitKey hr
  rw [current?, Instruction.ofFields?_eq_some_iff, hw, Instruction.encode, Instruction.pack]
  omega

theorem fillWaiting_of_register {m : Machine} {x : Register} (h : m.waitRegister = UInt8.ofNat x)
    (key : Register) : m.fillWaiting key = m.setRegister x (UInt8.ofNat key) := by
  have hx := Register.val_lt x
  have hv : m.waitRegister.toNat = x.val := by
    rw [h, UInt8.toNat_ofNat']
    omega
  simp only [fillWaiting, hv, hx, ↓reduceDIte]

section Wait

variable {m : Machine} {x : Register} {schedule : Schedule} {n : Nat}

theorem found_of_follow {delay sound : UInt8}
    (h : m.step.follow schedule n =
      { m.awaiting x (m.keypadAt schedule n) with keys := m.keypadAt schedule n, delay, sound }) :
    ∃ delay sound, m.step.found schedule n =
      { m.awaiting x (m.keypadAt schedule n) with keys := m.keypadAt schedule (n + 1), delay, sound } := by
  obtain ⟨delay, sound, keys, hi⟩ := inputs_eq (m.step.follow schedule n) (schedule n)
  have hk : m.keypadAt schedule (n + 1) = keys := by rw [keypadAt, found, hi]
  refine ⟨delay, sound, ?_⟩
  rw [found, hi, hk, h]

/-- By induction on the cycles: the keypad remembered is the one that the last cycle found. -/
theorem waits_of_noPress (hb : m.step = m.awaiting x m.keys) (hn : m.NoPress schedule n) :
    ∃ delay sound, m.step.follow schedule n =
      { m.awaiting x (m.keypadAt schedule n) with keys := m.keypadAt schedule n, delay, sound } := by
  induction n with
  | zero => exact ⟨m.delay, m.sound, hb⟩
  | succ n ih =>
    obtain ⟨_, _, hf⟩ := ih fun j hj => hn j (Nat.lt_succ_of_lt hj)
    obtain ⟨delay, sound, hf⟩ := found_of_follow hf
    have hk := (Keypad.firstPressed?_eq_none_iff _ _).2 (hn n (Nat.lt_succ_self n))
    refine ⟨delay, sound, ?_⟩
    show (m.step.found schedule n).step = _
    rw [hf, step_of_waiting rfl hk]
    rfl

theorem finds_of_noPress (hb : m.step = m.awaiting x m.keys) (hn : m.NoPress schedule n) :
    ∃ delay sound, m.step.found schedule n =
      { m.awaiting x (m.keypadAt schedule n) with keys := m.keypadAt schedule (n + 1), delay, sound } := by
  obtain ⟨_, _, hf⟩ := waits_of_noPress hb hn
  exact found_of_follow hf

theorem wakes_of_found {delay sound : UInt8}
    (hf : m.step.found schedule n =
      { m.awaiting x (m.keypadAt schedule n) with keys := m.keypadAt schedule (n + 1), delay, sound })
    (hp : ¬ (m.keypadAt schedule (n + 1)).Within (m.keypadAt schedule n)) :
    ∃ key, ((m.keypadAt schedule (n + 1)).get key = true ∧ (m.keypadAt schedule n).get key = false) ∧
      (∀ k, k < key →
        (m.keypadAt schedule (n + 1)).get k = true → (m.keypadAt schedule n).get k = true) ∧
      m.step.follow schedule (n + 1) = (m.step.found schedule n).woken x key := by
  cases hk : Keypad.firstPressed? (m.keypadAt schedule (n + 1)) (m.keypadAt schedule n) with
  | none => exact absurd ((Keypad.firstPressed?_eq_none_iff _ _).1 hk) hp
  | some key =>
    obtain ⟨hnew, hlow⟩ := (Keypad.firstPressed?_eq_some_iff _ _ _).1 hk
    refine ⟨key, hnew, hlow, ?_⟩
    show (m.step.found schedule n).step = _
    have hb : (m.step.found schedule n).mode = .blocked := by rw [hf]; rfl
    have hr : (m.step.found schedule n).waitRegister = UInt8.ofNat x := by rw [hf]; rfl
    rw [step_of_woken hb (by rw [hf]; exact hk), fillWaiting_of_register hr]
    rfl

end Wait

/-- How the wait that begins on `m` goes on under a schedule of inputs. -/
structure WaitsForKey (m : Machine) (x : Register) (schedule : Schedule) : Prop where
  begins : m.step = m.awaiting x m.keys
  /-- The machine as each cycle leaves it, and as the next one finds it. -/
  waits : ∀ n, m.NoPress schedule n →
    (∃ delay sound, m.step.follow schedule n =
      { m.awaiting x (m.keypadAt schedule n) with keys := m.keypadAt schedule n, delay, sound }) ∧
    ∃ delay sound, m.step.found schedule n =
      { m.awaiting x (m.keypadAt schedule n) with keys := m.keypadAt schedule (n + 1), delay, sound }
  word : ∀ n, m.NoPress schedule n → (m.step.found schedule n).fetch = m.fetch
  /-- The first cycle that finds a key pressed since the cycle before takes the lowest. -/
  wakes : ∀ n, m.NoPress schedule n →
    ¬ (m.keypadAt schedule (n + 1)).Within (m.keypadAt schedule n) →
    ∃ key, ((m.keypadAt schedule (n + 1)).get key = true ∧ (m.keypadAt schedule n).get key = false) ∧
      (∀ k, k < key →
        (m.keypadAt schedule (n + 1)).get k = true → (m.keypadAt schedule n).get k = true) ∧
      m.step.follow schedule (n + 1) = (m.step.found schedule n).woken x key
  forever : (∀ n, m.NoPress schedule n) →
    ∀ n, (m.step.follow schedule n).mode = .blocked ∧ (m.step.found schedule n).mode = .blocked

theorem key_wait {m : Machine} (hr : m.mode = .running) {x : Register}
    (hw : m.fetch.toNat = 0xF00A + 0x100 * x) (schedule : Schedule) : m.WaitsForKey x schedule := by
  have hb := step_eq_awaiting hr hw
  constructor
  · exact hb
  · exact fun n hn => ⟨waits_of_noPress hb hn, finds_of_noPress hb hn⟩
  · intro n hn
    obtain ⟨_, _, hf⟩ := finds_of_noPress hb hn
    apply fetch_congr <;> rw [hf] <;> rfl
  · intro n hn hp
    obtain ⟨_, _, hf⟩ := finds_of_noPress hb hn
    exact wakes_of_found hf hp
  · intro hall n
    obtain ⟨_, _, hw⟩ := waits_of_noPress hb (hall n)
    obtain ⟨_, _, hf⟩ := finds_of_noPress hb (hall n)
    rw [hw, hf]
    exact ⟨rfl, rfl⟩

/-- A press that no cycle sees, and two keys that go down before the next one. -/
def presses : Schedule
  | 0 => [.key (.integer 3) (.flag true), .release, .tick]
  | 1 => [.key (.integer 11) (.flag true), .key (.integer 7) (.integer 1)]
  | _ => []

/-- A program that waits for a key at once, to fill `V5`. -/
def waiter : Machine :=
  (initial (.ofSeed 0)).loaded [0xF5, 0x0A]

theorem key_wait_presses :
    waiter.mode = .running ∧ waiter.fetch.toNat = 0xF00A + 0x100 * (5 : Register) ∧
      waiter.WaitsForKey 5 presses ∧ waiter.NoPress presses 1 ∧
      ¬ (waiter.keypadAt presses 2).Within (waiter.keypadAt presses 1) := by
  have hr : waiter.mode = .running := mode_loaded _ _
  have hw : waiter.fetch.toNat = 0xF00A + 0x100 * (5 : Register) := by
    rw [waiter, fetch_loaded _ (by decide)]
    rfl
  have hk := key_wait hr hw presses
  have h1 : waiter.keypadAt presses 1 = Keypad.released := by
    rw [keypadAt, found, follow, hk.begins]
    rfl
  have hn : waiter.NoPress presses 1 := by
    intro j hj i hi
    obtain rfl : j = 0 := by omega
    rw [h1, Vector.get, Keypad.released] at hi
    simp at hi
  refine ⟨hr, hw, hk, hn, ?_⟩
  intro hs
  obtain ⟨⟨delay, sound, hf⟩, -⟩ := hk.waits 1 hn
  have h2 : waiter.keypadAt presses 2 = (Keypad.released.set 11 true).set 7 true := by
    rw [keypadAt, found, hf, h1]
    rfl
  have h7 := hs 7
  rw [h2, h1] at h7
  exact absurd (h7 (by decide)) (by decide)

end Machine

end Chip8
