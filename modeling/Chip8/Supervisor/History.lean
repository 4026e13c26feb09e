import Chip8.Supervisor.Call

/-! What a supervisor has been through: every cycle and every halt and resume of its machine, in order,
each with the machine that it came to. A supervisor keeps none of this. Its records are compared with
it. -/

namespace Chip8

inductive Deed
  | cycle (before : Machine)
  | halt (before : Machine)
  | resume (before : Machine)

namespace Deed

def before : Deed → Machine
  | cycle m | halt m | resume m => m

def after : Deed → Machine
  | cycle m => m.step
  | halt m => { m with mode := .halted }
  | resume m => if m.mode = .halted then { m with mode := .running, fault := none } else m

/-- A cycle that begins on a machine that is not halted. -/
def isLive : Deed → Bool
  | cycle m => m.mode ≠ .halted
  | _ => false

end Deed

/-- The deeds before the last reset, and those since. -/
structure History where
  past : List Deed := []
  recent : List Deed := []

namespace History

/-- All deeds since construction. -/
def all (h : History) : List Deed := h.past ++ h.recent

def add (h : History) (d : Deed) : History :=
  { h with recent := h.recent ++ [d] }

def addAll (h : History) (ds : List Deed) : History :=
  ds.foldl add h

def reset (h : History) : History :=
  { past := h.all }

end History

namespace Supervisor

/-- The deeds of a loop of up to `n` steps. -/
def loopDeeds (s : Supervisor) : Nat → List Deed
  | 0 => []
  | n + 1 =>
    if s.isHalted then []
    else .cycle s.machine ::
      match s.step with
      | (s', .ok _) => s'.loopDeeds n
      | (_, .error _) => []

/-- The deeds of a request. -/
def deeds (s : Supervisor) : Request → List Deed
  | .step => [.cycle s.machine]
  | .run cycles => s.loopDeeds cycles.toNat
  | .runFrame cycles => s.loopDeeds cycles
  | .halt => [.halt s.machine]
  | .resume => [.resume s.machine]
  | _ => []

/-- The history behind one more call; a call that is refused adds nothing to it. -/
def remember (s : Supervisor) (h : History) (c : Call) : History :=
  match c.request with
  | .ok .reset => h.reset
  | .ok r => h.addAll (s.deeds r)
  | .error _ => h

/-- The history behind a number of calls, going on from `h`. -/
def historyFrom (s : Supervisor) (h : History) : List Call → History
  | [] => h
  | c :: rest => (s.call c).1.historyFrom (s.remember h c) rest

/-- What a new supervisor has been through after a number of calls. -/
def history (s : Supervisor) (calls : List Call) : History :=
  s.historyFrom {} calls

end Supervisor

end Chip8
