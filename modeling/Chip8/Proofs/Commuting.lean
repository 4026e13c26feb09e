import Chip8.Proofs.Footprint
import Chip8.Proofs.SupervisedRun
import Chip8.Supervisor.Action

/-! Inputs between cycles, and when they come. An input changes the timers or the keypad and nothing
else, and few cycles look at those. Every other cycle can come before the input or behind it, so an
input may be moved along a run up to the next action that minds it.

* `step_setTimers`, `step_setKeys`: a cycle on other timers, and on another keypad;
* `step_input`: an input and a cycle that does not heed it;
* `actAll_input`: an input and a run that nowhere minds it;
* `inputs_commute`: all together, for every position in every run. -/

namespace Chip8

/-- The words that read or set a timer. -/
def timerWords : List Pattern :=
  [⟨0xF, none, some 0x0, some 0x7⟩, -- FX07
    ⟨0xF, none, some 0x1, some 0x5⟩, -- FX15
    ⟨0xF, none, some 0x1, some 0x8⟩] -- FX18

/-- The instructions those words spell. -/
def Instruction.Timed : Instruction → Prop
  | readDelay _ | setDelay _ | setSound _ => True
  | _ => False

namespace Input

/-- The state of this key is reported. -/
def Reports : Input → Register → Prop
  | .key index _, k => Argument.key index = .ok k
  | .keypad states, _ => ∃ keys, Argument.keypad states = .ok keys
  | .release, _ => True
  | .tick, _ => False

/-- A timer behind the input. -/
def count : Input → UInt8 → UInt8
  | .tick, t => if 0 < t then t - 1 else t
  | _, t => t

/-- The keypad behind the input. -/
def latch : Input → Keypad → Keypad
  | .key index pressed, keys =>
    match Argument.key index with
    | .ok k => keys.set k.val pressed.truthy (Register.val_lt k)
    | .error _ => keys
  | .keypad states, keys =>
    match Argument.keypad states with
    | .ok keys => keys
    | .error _ => keys
  | .release, _ => Keypad.released
  | .tick, keys => keys

theorem get_latch_of_not_reports {i : Input} {k : Register} (h : ¬ i.Reports k) (keys : Keypad) :
    (i.latch keys).get k = keys.get k := by
  cases i with
  | key index pressed =>
    rw [Reports] at h
    rw [latch]
    cases hk : Argument.key index with
    | error e => rfl
    | ok k' =>
      have hne : k' ≠ k := by rintro rfl; exact h hk
      rw [Keypad.get_set, if_neg hne]
  | keypad states =>
    rw [latch]
    cases hk : Argument.keypad states with
    | error e => rfl
    | ok keys' => exact absurd ⟨keys', hk⟩ h
  | release => exact absurd trivial h
  | tick => rfl

/-- What is reported about a key does not depend on what was reported before. -/
theorem get_latch_of_reports {i : Input} {k : Register} (h : i.Reports k) (keys keys' : Keypad) :
    (i.latch keys).get k = (i.latch keys').get k := by
  cases i with
  | key index pressed =>
    rw [Reports] at h
    simp only [latch, h, Keypad.get_set, ↓reduceIte]
  | keypad states =>
    obtain ⟨reported, hk⟩ := h
    simp only [latch, hk]
  | release => rfl
  | tick => exact h.elim

theorem latch_comm {i j : Input} (h : ∀ k, i.Reports k → ¬ j.Reports k) (keys : Keypad) :
    j.latch (i.latch keys) = i.latch (j.latch keys) := by
  apply Vector.ext
  intro n hn
  show (j.latch (i.latch keys)).get ⟨n, hn⟩ = (i.latch (j.latch keys)).get ⟨n, hn⟩
  by_cases hi : i.Reports ⟨n, hn⟩
  · rw [get_latch_of_not_reports (h _ hi), get_latch_of_reports hi keys (j.latch keys)]
  · rw [get_latch_of_not_reports hi]
    by_cases hj : j.Reports ⟨n, hn⟩
    · exact get_latch_of_reports hj _ _
    · rw [get_latch_of_not_reports hj, get_latch_of_not_reports hj, get_latch_of_not_reports hi]

theorem count_comm (i j : Input) (t : UInt8) : j.count (i.count t) = i.count (j.count t) := by
  cases i <;> cases j <;> rfl

end Input

namespace Machine

/-! ## Cycles that look at the timers or at a key -/

/-- The next cycle reads or sets a timer. -/
def UsesTimers (m : Machine) : Prop :=
  m.mode = .running ∧ Pattern.Among timerWords m.fetch.toNat

/-- The word at the program counter skips by whether this key is down. -/
def TestsKey (m : Machine) (k : Register) : Prop :=
  ∃ x : Register, ((Instruction.skipPressed x).encode = m.fetch.toNat ∨ -- EX9E
      (Instruction.skipReleased x).encode = m.fetch.toNat) ∧ -- EXA1
    (m.register x).toNat % 16 = k.val

/-- The next cycle looks at this key. A poll and an `FX0A` look at all of them. -/
def LooksAt (m : Machine) (k : Register) : Prop :=
  m.mode = .blocked ∨ m.mode = .running ∧ (Pattern.awaitKey.Matches m.fetch.toNat ∨ m.TestsKey k)

theorem usesTimers_of_timed {m : Machine} (hr : m.mode = .running) {i : Instruction}
    (hi : m.current? = some i) (ht : i.Timed) : m.UsesTimers := by
  rw [current?, Instruction.ofFields?_eq_some_iff] at hi
  refine ⟨hr, hi ▸ Part.among_pattern ?_⟩
  cases i with
  | readDelay | setDelay | setSound => simp [Instruction.pattern, timerWords]
  | _ => exact ht.elim

/-! ## Cycles on other timers -/

def setTimers (m : Machine) (delay sound : UInt8) : Machine :=
  { m with delay, sound }

theorem setTimers_self (m : Machine) : m.setTimers m.delay m.sound = m := rfl

theorem perform_setTimers (m : Machine) (delay sound : UInt8) {i : Instruction} (h : ¬ i.Timed) :
    (m.setTimers delay sound).perform i = (m.perform i).setTimers delay sound := by
  cases i with
  | readDelay | setDelay | setSound => exact absurd trivial h
  | ret => simp only [perform, ret, setTimers]; cases m.stack.pop? <;> rfl
  | call a => simp only [perform, call, setTimers]; cases m.stack.push? m.pc <;> rfl
  | _ => rfl

theorem fillWaiting_setTimers (m : Machine) (delay sound : UInt8) (key : Register) :
    (m.setTimers delay sound).fillWaiting key = (m.fillWaiting key).setTimers delay sound := by
  unfold fillWaiting
  by_cases hw : m.waitRegister.toNat < 16
  · rw [dif_pos hw, dif_pos (show (m.setTimers delay sound).waitRegister.toNat < 16 from hw)]
    rfl
  · rw [dif_neg hw, dif_neg (show ¬ (m.setTimers delay sound).waitRegister.toNat < 16 from hw)]

theorem step_setTimers_of_blocked {m : Machine} (hb : m.mode = .blocked) (delay sound : UInt8) :
    (m.setTimers delay sound).step = m.step.setTimers delay sound := by
  cases hk : Keypad.firstPressed? m.keys m.waitKeys with
  | none =>
    rw [step_of_waiting hb hk, step_of_waiting (m := m.setTimers delay sound) hb hk]
    rfl
  | some key =>
    rw [step_of_woken hb hk, step_of_woken (m := m.setTimers delay sound) hb hk,
      fillWaiting_setTimers]
    rfl

theorem step_setTimers {m : Machine} (h : ¬ m.UsesTimers) (delay sound : UInt8) :
    (m.setTimers delay sound).step = m.step.setTimers delay sound := by
  by_cases hr : m.mode = .running
  · cases hi : m.current? with
    | none =>
      rw [step_of_unknown hr hi, step_of_unknown (m := m.setTimers delay sound) hr hi]
      rfl
    | some i =>
      rw [step_of_current hr hi, step_of_current (m := m.setTimers delay sound) hr hi]
      exact perform_setTimers { m with fault := none } delay sound
        fun ht => h (usesTimers_of_timed hr hi ht)
  by_cases hb : m.mode = .blocked
  · exact step_setTimers_of_blocked hb delay sound
  · rw [step_of_idle hr hb, step_of_idle (m := m.setTimers delay sound) hr hb]

/-- The timers of the machine itself are a case of other timers. -/
theorem timers_step {m : Machine} (h : ¬ m.UsesTimers) :
    m.step.delay = m.delay ∧ m.step.sound = m.sound := by
  have hs := step_setTimers h m.delay m.sound
  rw [setTimers_self] at hs
  constructor <;> rw [hs] <;> rfl

theorem tick_eq (m : Machine) :
    m.tick = m.setTimers (Input.tick.count m.delay) (Input.tick.count m.sound) := rfl

theorem step_tick {m : Machine} (h : ¬ m.UsesTimers) : m.tick.step = m.step.tick := by
  rw [tick_eq, tick_eq, step_setTimers h, (timers_step h).1, (timers_step h).2]

/-! ## Cycles on another keypad -/

theorem setKeys_self (m : Machine) : m.setKeys m.keys = m := rfl

theorem keys_step (m : Machine) : m.step.keys = m.keys := by
  have ho := step_outcome m
  generalize m.step = m' at ho ⊢
  cases ho with
  | plain hr i hi hp m' hc =>
    obtain ⟨_, _, _, _, _, _, _, _, _, rfl⟩ := hc
    rfl
  | _ => rfl

theorem perform_setKeys {m : Machine} {keys : Keypad} {i : Instruction}
    (ha : ∀ x, i ≠ .awaitKey x)
    (ht : ∀ x, i = .skipPressed x ∨ i = .skipReleased x → (m.setKeys keys).keyDown x = m.keyDown x) :
    (m.setKeys keys).perform i = (m.perform i).setKeys keys := by
  cases i with
  | awaitKey x => exact absurd rfl (ha x)
  | skipPressed x => rw [perform, perform, ht x (.inl rfl)]; rfl
  | skipReleased x => rw [perform, perform, ht x (.inr rfl)]; rfl
  | ret => simp only [perform, ret, setKeys]; cases m.stack.pop? <;> rfl
  | call a => simp only [perform, call, setKeys]; cases m.stack.push? m.pc <;> rfl
  | _ => rfl

theorem looksAt_of_awaitKey {m : Machine} (hr : m.mode = .running) {x : Register}
    (hi : m.current? = some (.awaitKey x)) (k : Register) : m.LooksAt k := by
  rw [current?, Instruction.ofFields?_eq_some_iff] at hi
  exact .inr ⟨hr, .inl (hi ▸ Instruction.pattern_matches (.awaitKey x))⟩

theorem looksAt_of_skip {m : Machine} (hr : m.mode = .running) {i : Instruction} {x : Register}
    (hi : m.current? = some i) (hx : i = .skipPressed x ∨ i = .skipReleased x) :
    m.LooksAt (Register.ofNat (m.register x).toNat) := by
  rw [current?, Instruction.ofFields?_eq_some_iff] at hi
  refine .inr ⟨hr, .inr ⟨x, ?_, rfl⟩⟩
  rcases hx with rfl | rfl
  · exact .inl hi
  · exact .inr hi

/-- The other keypad differs in no key that the cycle looks at. -/
theorem step_setKeys {m : Machine} {keys : Keypad}
    (h : ∀ k, m.LooksAt k → keys.get k = m.keys.get k) :
    (m.setKeys keys).step = m.step.setKeys keys := by
  -- a cycle that looks at every key leaves no other keypad to speak of
  have hall : (∀ k, m.LooksAt k) → (m.setKeys keys).step = m.step.setKeys keys := by
    intro hl
    have hk : keys = m.keys := Vector.ext fun n hn => h ⟨n, hn⟩ (hl _)
    have hs := setKeys_self m.step
    rw [keys_step] at hs
    rw [hk, setKeys_self, hs]
  by_cases hr : m.mode = .running
  · cases hi : m.current? with
    | none =>
      rw [step_of_unknown hr hi, step_of_unknown (m := m.setKeys keys) hr hi]
      rfl
    | some i =>
      by_cases ha : ∃ x, i = .awaitKey x
      · obtain ⟨x, rfl⟩ := ha
        exact hall (looksAt_of_awaitKey hr hi)
      · rw [step_of_current hr hi, step_of_current (m := m.setKeys keys) hr hi]
        refine perform_setKeys (m := { m with fault := none }) (fun x hx => ha ⟨x, hx⟩) ?_
        exact fun x hx => h _ (looksAt_of_skip hr hi hx)
  by_cases hb : m.mode = .blocked
  · exact hall fun k => .inl hb
  · rw [step_of_idle hr hb, step_of_idle (m := m.setKeys keys) hr hb]

theorem step_setKey {m : Machine} {k : Register} (h : ¬ m.LooksAt k) (down : Bool) :
    (m.setKey k down).step = m.step.setKey k down := by
  have hk : ∀ k', m.LooksAt k' →
      (m.keys.set k.val down (Register.val_lt k)).get k' = m.keys.get k' := by
    intro k' hl
    have hne : k ≠ k' := by rintro rfl; exact h hl
    rw [Keypad.get_set, if_neg hne]
  rw [setKey, setKey, keys_step]
  exact step_setKeys hk

/-! ## Inputs and cycles -/

theorem input_eq_latch (m : Machine) (i : Input) :
    m.input i = (m.setKeys (i.latch m.keys)).setTimers (i.count m.delay) (i.count m.sound) := by
  cases i with
  | key index pressed =>
    simp only [input, input?, Input.latch]
    cases Argument.key index <;> rfl
  | keypad states =>
    simp only [input, input?, Input.latch]
    cases Argument.keypad states <;> rfl
  | release | tick => rfl

theorem input_of_ne_tick (m : Machine) {i : Input} (h : i ≠ .tick) :
    m.input i = m.setKeys (i.latch m.keys) := by
  rw [input_eq_latch]
  cases i with
  | tick => exact absurd rfl h
  | _ => rfl

theorem input_comm (m : Machine) {i j : Input} (h : ∀ k, i.Reports k → ¬ j.Reports k) :
    (m.input i).input j = (m.input j).input i := by
  simp only [input_eq_latch, setKeys, setTimers, Input.latch_comm h, Input.count_comm i j]

/-- The next cycle looks at what the input changes. -/
def Heeds (m : Machine) (i : Input) : Prop :=
  i = .tick ∧ m.UsesTimers ∨ ∃ k, i.Reports k ∧ m.LooksAt k

theorem step_input {m : Machine} {i : Input} (h : ¬ m.Heeds i) :
    (m.input i).step = m.step.input i := by
  by_cases ht : i = .tick
  · subst ht
    exact step_tick fun hu => h (.inl ⟨rfl, hu⟩)
  · rw [input_of_ne_tick m ht, input_of_ne_tick m.step ht, keys_step]
    refine step_setKeys fun k hl => ?_
    exact Input.get_latch_of_not_reports (fun hr => h (.inr ⟨k, hr, hl⟩)) _

/-- The input and the action are in each other's way. -/
def Minds (m : Machine) (i : Input) : Action → Prop
  | .step => m.Heeds i
  | .input j => ∃ k, i.Reports k ∧ j.Reports k
  | _ => False

/-- An input changes nothing that decides which cycles look at it. -/
theorem minds_input (m : Machine) (i j : Input) (a : Action) :
    (m.input j).Minds i a ↔ m.Minds i a := by
  rw [input_eq_latch]
  cases a <;> exact Iff.rfl

end Machine

namespace Supervisor

/-! ## Inputs and runs -/

/-- The supervisor with another keypad and other timers on its machine. -/
def setHost (s : Supervisor) (keys : Keypad) (delay sound : UInt8) : Supervisor :=
  { s with machine := (s.machine.setKeys keys).setTimers delay sound }

theorem act_input (s : Supervisor) (i : Input) :
    (s.act (.input i)).1 = { s with machine := s.machine.input i } := by
  rw [act, Machine.input]
  cases s.machine.input? i <;> rfl

theorem act_input_eq (s : Supervisor) (i : Input) :
    (s.act (.input i)).1 = s.setHost (i.latch s.machine.keys) (i.count s.machine.delay)
      (i.count s.machine.sound) := by
  rw [act_input, Machine.input_eq_latch, setHost]

theorem halt_setHost (s : Supervisor) (keys : Keypad) (delay sound : UInt8) :
    (s.setHost keys delay sound).answer .halt =
      ((s.answer .halt).1.setHost keys delay sound, (s.answer .halt).2) := by
  have hm : (s.setHost keys delay sound).machine.mode = s.machine.mode := rfl
  by_cases h : s.machine.mode = .halted
  · simp only [answer, replying, halt, isHalted, hm, h, decide_true, ↓reduceIte]
  · simp only [answer, replying, halt, isHalted, modeName, hm, h, decide_false, Bool.false_eq_true,
      ↓reduceIte]
    cases s.machine.mode.name? <;> rfl

theorem resume_setHost (s : Supervisor) (keys : Keypad) (delay sound : UInt8) :
    (s.setHost keys delay sound).resume = s.resume.setHost keys delay sound := by
  have hm : (s.setHost keys delay sound).machine.mode = s.machine.mode := rfl
  by_cases h : s.machine.mode = .halted
  · simp only [resume, isHalted, hm, h, decide_true, ↓reduceIte]
    rfl
  · simp only [resume, isHalted, hm, h, decide_false, Bool.false_eq_true, ↓reduceIte]

theorem consumeRedraw_setHost (s : Supervisor) (keys : Keypad) (delay sound : UInt8) :
    (s.setHost keys delay sound).consumeRedraw.1 = s.consumeRedraw.1.setHost keys delay sound := by
  have hr : (s.setHost keys delay sound).machine.redraw = s.machine.redraw := rfl
  cases h : s.machine.redraw with
  | false => simp only [consumeRedraw, hr, h, Bool.false_eq_true, ↓reduceIte]
  | true =>
    simp only [consumeRedraw, hr, h, ↓reduceIte]
    rfl

section Aside

variable {a : Action} (hs : a ≠ .step) (hi : ∀ j, a ≠ .input j)

include hs hi

/-- Beside cycles and inputs nothing looks at the keypad or the timers. -/
theorem act_setHost (s : Supervisor) (keys : Keypad) (delay sound : UInt8) :
    ((s.setHost keys delay sound).act a).1 = (s.act a).1.setHost keys delay sound := by
  cases a with
  | step => exact absurd rfl hs
  | input j => exact absurd rfl (hi j)
  | write address data =>
    simp only [act, Machine.write]
    cases data.image with
    | error e => rfl
    | ok image =>
      simp only [bind, Except.bind, Machine.writeImage]
      split <;> rfl
  | load data =>
    simp only [act, Machine.load]
    cases data.image with
    | error e => rfl
    | ok image =>
      simp only [bind, Except.bind]
      by_cases hl : image.length ≤ Machine.maxProgramSize
      · rw [Machine.loadImage_of_le _ hl, Machine.loadImage_of_le _ hl]
        rfl
      · rw [Machine.loadImage, Machine.loadImage, if_pos (Nat.lt_of_not_le hl),
          if_pos (Nat.lt_of_not_le hl)]
        rfl
  | halt => exact congrArg Prod.fst (halt_setHost s keys delay sound)
  | resume => exact resume_setHost s keys delay sound
  | consumeRedraw => exact consumeRedraw_setHost s keys delay sound

theorem host_act (s : Supervisor) : (s.act a).1.machine.keys = s.machine.keys ∧
    (s.act a).1.machine.delay = s.machine.delay ∧ (s.act a).1.machine.sound = s.machine.sound := by
  have h : (s.act a).1 = (s.act a).1.setHost s.machine.keys s.machine.delay s.machine.sound :=
    act_setHost hs hi s s.machine.keys s.machine.delay s.machine.sound
  refine ⟨?_, ?_, ?_⟩ <;> rw [h] <;> rfl

end Aside

theorem act_act_input {s : Supervisor} {i : Input} {a : Action} (h : ¬ s.machine.Minds i a) :
    ((s.act (.input i)).1.act a).1 = ((s.act a).1.act (.input i)).1 := by
  by_cases hs : a = .step
  · subst hs
    rw [act_input, act_input]
    show { s with machine := (s.machine.input i).step } = { s with machine := s.machine.step.input i }
    rw [Machine.step_input h]
  by_cases hi : ∃ j, a = .input j
  · obtain ⟨j, rfl⟩ := hi
    rw [act_input, act_input, act_input, act_input]
    show { s with machine := (s.machine.input i).input j } =
      { s with machine := (s.machine.input j).input i }
    rw [s.machine.input_comm fun k hr hr' => h ⟨k, hr, hr'⟩]
  · have hi' : ∀ j, a ≠ .input j := fun j hj => hi ⟨j, hj⟩
    obtain ⟨hk, hd, hso⟩ := host_act hs hi' s
    rw [act_input_eq, act_input_eq, act_setHost hs hi', hk, hd, hso]

/-- None of the actions minds the input, each on the machine that it comes to. -/
def Clear (s : Supervisor) (i : Input) : List Action → Prop
  | [] => True
  | a :: rest => ¬ s.machine.Minds i a ∧ (s.act a).1.Clear i rest

theorem actAll_cons (s : Supervisor) (a : Action) (rest : List Action) :
    (s.actAll (a :: rest)).1 = ((s.act a).1.actAll rest).1 := rfl

theorem actAll_append (s : Supervisor) (as bs : List Action) :
    (s.actAll (as ++ bs)).1 = ((s.actAll as).1.actAll bs).1 := by
  induction as generalizing s with
  | nil => rfl
  | cons a rest ih => rw [List.cons_append, actAll_cons, ih, actAll_cons]

theorem actAll_input {s : Supervisor} {i : Input} {as : List Action} (h : s.Clear i as) :
    (s.actAll (.input i :: as)).1 = (s.actAll (as ++ [.input i])).1 := by
  induction as generalizing s with
  | nil => rfl
  | cons a rest ih =>
    obtain ⟨ha, hrest⟩ := h
    calc (s.actAll (.input i :: a :: rest)).1
        = (((s.act (.input i)).1.act a).1.actAll rest).1 := rfl
      _ = ((s.act a).1.actAll (.input i :: rest)).1 := by rw [act_act_input ha, actAll_cons]
      _ = (s.actAll (a :: rest ++ [.input i])).1 := by rw [ih hrest, List.cons_append, actAll_cons]

/-- Whether the way is clear can be asked with the input already made or still to come. -/
theorem clear_act_input {s : Supervisor} {i : Input} {as : List Action} :
    (s.act (.input i)).1.Clear i as ↔ s.Clear i as := by
  induction as generalizing s with
  | nil => exact Iff.rfl
  | cons a rest ih =>
    have hm : (s.act (.input i)).1.machine.Minds i a ↔ s.machine.Minds i a := by
      rw [act_input]
      exact s.machine.minds_input i i a
    rw [Clear, Clear, hm]
    refine and_congr_right fun ha => ?_
    rw [act_act_input ha, ih]

/-- Which cycles a tick and a key report may come before or behind, and between which positions of a
run an input may be moved. -/
structure InputsCommute (s : Supervisor) : Prop where
  tick : ¬ s.machine.UsesTimers → s.machine.tick.step = s.machine.step.tick
  key : ∀ k down, ¬ s.machine.LooksAt k →
    (s.machine.setKey k down).step = s.machine.step.setKey k down
  /-- Whether it is moved to a later position or to an earlier one. -/
  moved : ∀ i before between after,
    (s.actAll (before ++ [.input i])).1.Clear i between ∨ (s.actAll before).1.Clear i between →
    (s.actAll (before ++ .input i :: between ++ after)).1 =
      (s.actAll (before ++ between ++ .input i :: after)).1

theorem inputs_commute (s : Supervisor) : s.InputsCommute where
  tick := Machine.step_tick
  key _ down h := Machine.step_setKey h down
  moved i before between after h := by
    have hclear : (s.actAll before).1.Clear i between := by
      rcases h with h | h
      · rw [actAll_append] at h
        exact clear_act_input.1 h
      · exact h
    have hswap := actAll_input hclear
    calc (s.actAll (before ++ .input i :: between ++ after)).1
        = (((s.actAll before).1.actAll (.input i :: between)).1.actAll after).1 := by
          rw [actAll_append, actAll_append]
      _ = (((s.actAll before).1.actAll (between ++ [.input i])).1.actAll after).1 := by rw [hswap]
      _ = (s.actAll (before ++ between ++ .input i :: after)).1 := by
          rw [← actAll_append, ← actAll_append, List.append_assoc, List.append_assoc,
            List.singleton_append]

/-- A machine at a word that skips when the key named by `VA` is down, which is the key 0. -/
def asking : Supervisor :=
  { blankStart with machine := (Machine.initial (.ofSeed 0)).loaded [0xEA, 0x9E] }

theorem fetch_asking : asking.machine.fetch.toNat = 0xEA9E := by
  rw [asking, Machine.fetch_loaded _ (by decide)]
  rfl

theorem not_looksAt_asking {k : Register} (h : k ≠ 0) : ¬ asking.machine.LooksAt k := by
  have hr : asking.machine.mode = .running := Machine.mode_loaded _ _
  rintro (hb | ⟨-, hw | ⟨x, hx, hk⟩⟩)
  · rw [hr] at hb
    cases hb
  · rw [fetch_asking] at hw
    exact absurd hw (by decide)
  · have hz : asking.machine.register x = 0 := by
      rw [asking, Machine.loaded]
      exact Vector.getElem_replicate _
    rw [hz] at hk
    exact h (Fin.ext hk.symm)

/-- A tick, and the report of any other key, may come before the step or behind it. -/
theorem inputs_commute_asking :
    ¬ asking.machine.UsesTimers ∧ ¬ asking.machine.LooksAt 5 ∧ asking.machine.LooksAt 0 ∧
      asking.machine.tick.step = asking.machine.step.tick ∧
      (asking.actAll [.input (.key (.integer 5) (.flag true)), .step, .input .tick]).1 =
        (asking.actAll [.step, .input (.key (.integer 5) (.flag true)), .input .tick]).1 := by
  have hr : asking.machine.mode = .running := Machine.mode_loaded _ _
  have ht : ¬ asking.machine.UsesTimers := by
    rintro ⟨-, hw⟩
    rw [fetch_asking] at hw
    exact absurd hw (by decide)
  have h5 : ¬ asking.machine.LooksAt 5 := not_looksAt_asking (by decide)
  have h0 : asking.machine.LooksAt 0 := by
    refine .inr ⟨hr, .inr ⟨0xA, .inl ?_, ?_⟩⟩
    · rw [fetch_asking]
      rfl
    · rw [asking, Machine.loaded]
      rfl
  have hclear : asking.Clear (.key (.integer 5) (.flag true)) [.step] := by
    refine ⟨?_, trivial⟩
    rintro (⟨hi, -⟩ | ⟨k, hk, hl⟩)
    · cases hi
    · obtain rfl : 5 = k := Except.ok.inj hk
      exact h5 hl
  have h := inputs_commute asking
  exact ⟨ht, h5, h0, h.tick ht, h.moved _ [] [.step] [.input .tick] (.inr hclear)⟩

end Supervisor

end Chip8
