/-! What can go wrong with an instruction. -/

namespace Chip8

inductive Fault
  | unknownOpcode | stackOverflow | stackUnderflow
deriving DecidableEq, Repr

namespace Fault

/-- The name faults are counted and logged under. -/
def name : Fault → String
  | unknownOpcode => "UnknownOpcode"
  | stackOverflow => "StackOverflow"
  | stackUnderflow => "StackUnderflow"

def description : Fault → String
  | unknownOpcode => "Unknown opcode"
  | stackOverflow => "Call stack overflow"
  | stackUnderflow => "Return with empty call stack"

/-- A stack fault has no way on; an unknown word is only stepped over. -/
def isStackFault : Fault → Bool
  | unknownOpcode => false
  | stackOverflow | stackUnderflow => true

end Fault

end Chip8
