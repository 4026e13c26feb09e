import Chip8.Proofs.Supervised
import Chip8.Supervisor.Request

/-! What happens to a program while it is left to itself: steps, ticks of the timers and key events, in
any order. Only a step touches more than the timers and the keypad, so an induction over the events
has two cases. -/

namespace Chip8

def Request.IsEvent : Request → Prop
  | .step | .tick | .setKey _ _ | .releaseKeys => True
  | _ => False

namespace Supervisor

theorem machine_event (s : Supervisor) {r : Request} (h : r.IsEvent) :
    (r = .step ∧ (s.answer r).1.machine = s.machine.step) ∨
      (r ≠ .step ∧ ∃ delay sound keys,
        (s.answer r).1.machine = { s.machine with delay, sound, keys }) := by
  cases r with
  | step => exact .inl ⟨rfl, machine_step s⟩
  | tick => exact .inr ⟨by rintro ⟨⟩, _, _, _, rfl⟩
  | setKey key down => exact .inr ⟨by rintro ⟨⟩, _, _, _, rfl⟩
  | releaseKeys => exact .inr ⟨by rintro ⟨⟩, _, _, _, rfl⟩
  | _ => exact h.elim

theorem afterAll_cons (s : Supervisor) (r : Request) (rest : List Request) :
    s.afterAll (r :: rest) = (s.answer r).1.afterAll rest := rfl

theorem afterAll_step (s : Supervisor) (rs : List Request) :
    (s.afterAll (rs ++ [.step])).machine = (s.afterAll rs).machine.step := by
  rw [afterAll, List.foldl_append]
  exact machine_step _

/-- What a request executes: the program counter and the word there, if it steps a running machine. -/
def executes (s : Supervisor) : Request → List (UInt16 × UInt16)
  | .step => if s.machine.mode = .running then [(s.machine.pc, s.machine.fetch)] else []
  | _ => []

/-- What a conversation executes, in order. -/
def executed (s : Supervisor) : List Request → List (UInt16 × UInt16)
  | [] => []
  | r :: rest => s.executes r ++ (s.answer r).1.executed rest

theorem executes_step_of_running {s : Supervisor} (h : s.machine.mode = .running) :
    s.executes .step = [(s.machine.pc, s.machine.fetch)] :=
  if_pos h

theorem executes_cases (s : Supervisor) (r : Request) :
    s.executes r = [] ∨ s.executes r = [(s.machine.pc, s.machine.fetch)] := by
  cases r with
  | step =>
    rw [executes]
    split
    · exact .inr rfl
    · exact .inl rfl
  | _ => exact .inl rfl

theorem executes_of_not_running {s : Supervisor} (h : s.machine.mode ≠ .running) (r : Request) :
    s.executes r = [] := by
  cases r with
  | step => exact if_neg h
  | _ => rfl

end Supervisor

end Chip8
