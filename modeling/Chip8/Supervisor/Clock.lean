import Chip8.Supervisor.Call

/-! Calls in time. The clock that a supervisor's logger reads goes on between the calls. -/

namespace Chip8.Supervisor

def wait (s : Supervisor) (now : Float) : Supervisor :=
  { s with journal := { s.journal with logger := { s.journal.logger with now } } }

/-- The supervisor after a number of calls, each made at its time. -/
def afterTimed (s : Supervisor) (calls : List (Float × Call)) : Supervisor :=
  calls.foldl (fun s c => ((s.wait c.1).call c.2).1) s

end Chip8.Supervisor
