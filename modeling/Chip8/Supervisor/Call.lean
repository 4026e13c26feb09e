import Chip8.Supervisor.Request

/-! Calls as hosts make them, before anyone has looked at the arguments. A call with an argument that
its parameter does not accept is refused and leaves everything as it was. -/

namespace Chip8

inductive Call
  | load (data : ProgramData) (source : Option String)
  | step
  | run (cycles : Value)
  | runFrame (cycles : Value)
  | tick
  | setKey (key pressed : Value)
  | releaseKeys
  | halt
  | resume
  | consumeRedraw
  | reset

/-- What a call asks for, if its arguments are accepted. -/
def Call.request : Call → Except Error Request
  | .load data source => .ok (.load data source)
  | .step => .ok .step
  | .run cycles => (Argument.integer cycles).map .run
  | .runFrame cycles => (Argument.frameLength cycles).map .runFrame
  | .tick => .ok .tick
  | .setKey key pressed => (Argument.key key).map fun k => .setKey k pressed.truthy
  | .releaseKeys => .ok .releaseKeys
  | .halt => .ok .halt
  | .resume => .ok .resume
  | .consumeRedraw => .ok .consumeRedraw
  | .reset => .ok .reset

namespace Supervisor

def call (s : Supervisor) (c : Call) : Supervisor × Except Error Answer :=
  match c.request with
  | .ok r => s.answer r
  | .error e => (s, .error e)

/-- The supervisor after a number of calls, those that failed included. -/
def afterCalls (s : Supervisor) (calls : List Call) : Supervisor :=
  calls.foldl (fun s c => (s.call c).1) s

/-- The supervisors that a host can come to hold: any that was created, and after each call the one
that the call left, whether it succeeded or not. -/
inductive Reachable : Supervisor → Prop
  | created {seed : Value} {strict : Bool} {journal : Except Error Journal} {s : Supervisor}
      (h : create seed strict journal = .ok s) : Reachable s
  | called {s : Supervisor} (h : Reachable s) (c : Call) : Reachable (s.call c).1

end Supervisor

end Chip8
