import Chip8.Argument
import Chip8.Machine

/-! What a host reports to a machine between two cycles: keys, whole keypads and ticks of the timers,
before anyone has looked at the arguments. An input that is refused leaves the machine as it was. -/

namespace Chip8

inductive Input
  | key (key pressed : Value)
  | keypad (states : Value)
  | release
  | tick

namespace Machine

/-- The machine behind an input, if the input is accepted. -/
def input? (m : Machine) : Input → Except Error Machine
  | .key key pressed => (Argument.key key).map fun k => m.setKey k pressed.truthy
  | .keypad states => (Argument.keypad states).map m.setKeys
  | .release => .ok m.releaseKeys
  | .tick => .ok m.tick

def input (m : Machine) (i : Input) : Machine :=
  match m.input? i with
  | .ok m' => m'
  | .error _ => m

def inputs (m : Machine) (is : List Input) : Machine :=
  is.foldl input m

end Machine

end Chip8
