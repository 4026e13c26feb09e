import Chip8.Instruction.Fields

/-! The host's keyboard. Sixteen keys in the left half of it stand for the keypad, in the same four by
four order; a few others steer the host itself. -/

namespace Chip8.Host

/-- The keys that stand for the keypad, row by row. -/
def layout : List (String × Nat) :=
  [("1", 0x1), ("2", 0x2), ("3", 0x3), ("4", 0xC),
   ("q", 0x4), ("w", 0x5), ("e", 0x6), ("r", 0xD),
   ("a", 0x7), ("s", 0x8), ("d", 0x9), ("f", 0xE),
   ("z", 0xA), ("x", 0x0), ("c", 0xB), ("v", 0xF)]

inductive HostKey
  | pad (key : Register)
  | escape | pause | reset | faster | slower
  | unused
deriving DecidableEq, Repr

/-- The keys that steer the host. -/
def controls : List (String × HostKey) :=
  [("ESCAPE", .escape), ("p", .pause), ("F5", .reset), ("EQUALS", .faster), ("MINUS", .slower)]

def HostKey.ofName (name : String) : HostKey :=
  match controls.lookup name with
  | some key => key
  | none =>
    match layout.lookup name with
    | some key => .pad (Register.ofNat key)
    | none => .unused

inductive Event
  | quit
  | keyDown (key : HostKey)
  | keyUp (key : HostKey)
  | focusLost
  | other
deriving DecidableEq, Repr

end Chip8.Host
