import Chip8.Machine.Input
import Chip8.Supervisor.Request

/-! What happens to a program while it runs, as data: cycles, inputs, writes and loads, which work on
the machine itself, and the three operations that only a supervisor has. An action that is refused
leaves everything as it was. -/

namespace Chip8

inductive Action
  | step
  | input (i : Input)
  | write (address : Int) (data : ProgramData)
  | load (data : ProgramData)
  | halt
  | resume
  | consumeRedraw

namespace Supervisor

/-- Another machine in the place of the one at hand, if there is one. -/
def put (s : Supervisor) : Except Error Machine → Supervisor × Except Error Answer
  | .ok machine => ({ s with machine }, .ok .done)
  | .error e => (s, .error e)

def act (s : Supervisor) : Action → Supervisor × Except Error Answer
  | .step => ({ s with machine := s.machine.step }, .ok (.word s.machine.fetch))
  | .input i => s.put (s.machine.input? i)
  | .write address data => s.put (s.machine.write address data)
  | .load data => s.put (s.machine.load data)
  | .halt => s.answer .halt
  | .resume => s.answer .resume
  | .consumeRedraw => s.answer .consumeRedraw

/-- The supervisor behind a number of actions, and what each of them answered. -/
def actAll (s : Supervisor) : List Action → Supervisor × List (Except Error Answer)
  | [] => (s, [])
  | a :: rest =>
    let (s', answers) := (s.act a).1.actAll rest
    (s', (s.act a).2 :: answers)

end Supervisor

end Chip8
