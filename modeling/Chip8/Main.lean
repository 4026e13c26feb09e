import Chip8.Host.Settings

/-! The command line, `rom=FILE key=value …`. The events are read from standard input, one line for each
turn; the log and the last screen are written to standard output. -/

namespace Chip8.Host

def readScript (input : IO.FS.Stream) : IO (List (List Event)) := do
  let mut turns := #[]
  repeat
    let line ← input.getLine
    if line.isEmpty then break
    turns := turns.push (Event.ofLine line)
  return turns.toList

/-- The content of a file, if it can be read. -/
def readProgram (name : String) : IO (Option (List UInt8)) := do
  try
    return some (← IO.FS.readBinFile name).toList
  catch _ => return none

/-- Sixty turns take a second. -/
def duration (turns : Nat) : Float := Float.ofNat turns / 60

def runScript (config : Config) : IO UInt32 := do
  let content ← readProgram config.rom
  let turns ← readScript (← IO.getStdin)
  let config := { config with content, elapsed := duration turns.length }
  let outcome := config.run (turns ++ [[Event.quit]])
  if let some (_, last) := outcome.machine then
    IO.print (last.journal.logger.textFrom 0)
    IO.print last.machine.screen.text
  match outcome.error with
  | none => return 0
  | some e =>
    IO.eprintln e.message
    return 1

end Chip8.Host

def main (settings : List String) : IO UInt32 :=
  match Chip8.Host.Config.ofWords settings with
  | .ok config => Chip8.Host.runScript config
  | .error word => do
    IO.eprintln ("not a setting: " ++ word)
    return 2
