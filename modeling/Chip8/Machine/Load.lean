import Chip8.Machine
import Chip8.Program

/-! Loading programs. A write that does not fit below the top of memory changes nothing. -/

namespace Chip8.Machine

def maxProgramSize : Nat := Memory.size - programStart

def writeImage (m : Machine) (address : Int) (image : List UInt8) : Except Error Machine :=
  if address < 0 ∨ Memory.size < address + image.length then
    .error (.outOfBounds address image.length Memory.size)
  else
    let bytes := image.toArray
    .ok { m with memory := m.memory.overlay address.toNat bytes.size fun k => bytes.getD k 0 }

def write (m : Machine) (address : Int) (data : ProgramData) : Except Error Machine := do
  m.writeImage address (← data.image)

/-- A program goes to its start address, and the program counter with it; all else stays. -/
def loadImage (m : Machine) (image : List UInt8) : Except Error Machine :=
  if maxProgramSize < image.length then
    .error (.outOfBounds programStart image.length (programStart + maxProgramSize))
  else do
    let m' ← m.writeImage programStart image
    return { m' with pc := UInt16.ofNat programStart }

def load (m : Machine) (data : ProgramData) : Except Error Machine := do
  m.loadImage (← data.image)

end Chip8.Machine
