import Chip8.Supervisor.Call

/-! Calls between which a host looks at memory. A look gives bytes or is refused. -/

namespace Chip8

inductive Visit
  | call (c : Call)
  | read (address length : Int)

/-- What a host is told. -/
inductive Reply
  | answer (a : Answer)
  | bytes (content : List UInt8)
deriving DecidableEq, Repr

def Visit.call? : Visit → Option Call
  | call c => some c
  | read _ _ => none

namespace Supervisor

def visit (s : Supervisor) : Visit → Supervisor × Except Error Reply
  | .call c => ((s.call c).1, (s.call c).2.map .answer)
  | .read address length => (s, (s.readMemory address length).map .bytes)

/-- The supervisor after a number of visits, those that failed included. -/
def afterVisits (s : Supervisor) (visits : List Visit) : Supervisor :=
  visits.foldl (fun s v => (s.visit v).1) s

end Supervisor

end Chip8
