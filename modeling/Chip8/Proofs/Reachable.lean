import Chip8.Proofs.Supervised
import Chip8.Supervisor.Call

/-! The induction over everything a host can do with a supervisor, made once. A property of machines
that holds at power-on and is kept by each of the ways in which a machine changes holds of the
machine of every reachable supervisor. -/

namespace Chip8

/-- A property of machines that nothing a host can do makes false. -/
structure Kept (P : Machine → Prop) : Prop where
  initial : ∀ key, P (.initial key)
  loaded : ∀ m image, P m → P (m.loaded image)
  step : ∀ m, P m → P m.step
  tick : ∀ m, P m → P m.tick
  keys : ∀ m keys, P m → P (m.setKeys keys)
  halted : ∀ m, P m → P { m with mode := .halted }
  resumed : ∀ m, P m → m.mode = .halted → P { m with mode := .running, fault := none }
  redrawn : ∀ m, P m → P { m with redraw := false }

namespace Kept

variable {P : Machine → Prop} (hP : Kept P)

include hP

theorem create {seed : Value} {strict : Bool} {journal : Except Error Journal} {s : Supervisor}
    (h : Supervisor.create seed strict journal = .ok s) : P s.machine := by
  obtain ⟨key, hk⟩ := Supervisor.machine_create h
  rw [hk]
  exact hP.initial key

theorem load {s : Supervisor} (h : P s.machine) (data : ProgramData) (source : Option String) :
    P (s.load data source).1.machine := by
  rcases s.machine_load data source with ⟨image, hl⟩ | hl
  · rw [hl]
    exact hP.loaded _ image h
  · rw [hl]
    exact h

theorem run {s : Supervisor} (h : P s.machine) (n : Int) : P (s.run n).1.machine := by
  rw [Supervisor.machine_run]
  exact Supervisor.runFrom_kept hP.step h 0 n.toNat

theorem runFrame {s : Supervisor} (h : P s.machine) (n : Nat) : P (s.runFrame n).1.machine :=
  Supervisor.runFrame_kept hP.step hP.tick h n

theorem halt {s : Supervisor} (h : P s.machine) : P s.halt.1.machine := by
  rcases s.machine_halt with hh | hh <;> rw [hh]
  · exact h
  · exact hP.halted _ h

theorem resume {s : Supervisor} (h : P s.machine) : P s.resume.machine := by
  rw [Supervisor.machine_resume]
  split
  · exact hP.resumed _ h ‹_›
  · exact h

theorem consumeRedraw {s : Supervisor} (h : P s.machine) : P s.consumeRedraw.1.machine := by
  rw [Supervisor.machine_consumeRedraw]
  exact hP.redrawn _ h

theorem answer {s : Supervisor} (h : P s.machine) (r : Request) : P (s.answer r).1.machine := by
  cases r with
  | load data source => exact hP.load h data source
  | step => exact (Supervisor.machine_step s).symm ▸ hP.step _ h
  | run cycles => exact hP.run h cycles
  | runFrame cycles => exact hP.runFrame h cycles
  | tick => exact hP.tick _ h
  | setKey key down => exact hP.keys _ _ h
  | releaseKeys => exact hP.keys _ _ h
  | halt => exact hP.halt h
  | resume => exact hP.resume h
  | consumeRedraw => exact hP.consumeRedraw h
  | reset => exact hP.initial _

theorem afterAll {s : Supervisor} (h : P s.machine) (rs : List Request) :
    P (s.afterAll rs).machine := by
  induction rs generalizing s with
  | nil => exact h
  | cons r rest ih => exact ih (hP.answer h r)

theorem reachable {s : Supervisor} (h : s.Reachable) : P s.machine := by
  induction h with
  | created h => exact hP.create h
  | @called s h c ih =>
    unfold Supervisor.call
    split
    · exact hP.answer ih _
    · exact ih

end Kept

namespace Supervisor

theorem Reachable.afterCalls {s : Supervisor} (h : s.Reachable) (calls : List Call) :
    (s.afterCalls calls).Reachable := by
  induction calls generalizing s with
  | nil => exact h
  | cons c rest ih => exact ih (.called h c)

/-- A supervisor that was just created. -/
def fresh (seed : Nat) (strict : Bool) : Supervisor :=
  { machine := .initial (.ofSeed seed), key := .ofSeed seed, strict, journal := {}
    : Supervisor }.reset

theorem reachable_fresh {seed : Nat} (h : seed < 0x8000000000000000) (strict : Bool) :
    (fresh seed strict).Reachable :=
  .created (create_ok h strict {})

theorem machine_fresh (seed : Nat) (strict : Bool) :
    (fresh seed strict).machine = .initial (.ofSeed seed) :=
  machine_reset _

end Supervisor

end Chip8
