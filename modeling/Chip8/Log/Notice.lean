import Chip8.Error

/-! What is worth a line in the log, as data, and its wording. -/

namespace Chip8

inductive Notice
  | machineReset
  | loaded (size address : Int) (source : Option String)
  | faulted (kind : String) (pc word : Int)
  | modeChanged (old new : String) (pc : Int)
  | ran (cycles : Nat) (elapsed : Float)
  | summary (cycles : Int) (elapsed : Float) (faults : List (String × Nat))
  | controls
  | speed (cycles : Int)
  | restarted
  | pausing (cause : Error)
  | notLoaded (name : String) (cause : Error)
  | remark (text : String)

namespace Notice

def seconds (places : Nat) (x : Float) : String :=
  (Text.Binary64.ofFloat x).fixed places ++ "s"

/-- Cycles per second; none are counted where no time went by. -/
def rate (cycles : Int) (elapsed : Float) : Float :=
  if 0 < elapsed then Float.ofInt cycles / elapsed else 0

def faultList (faults : List (String × Nat)) : String :=
  if faults = [] then ""
  else " | faults: " ++ ", ".intercalate (faults.map fun f => f.1 ++ "=" ++ toString f.2)

def message : Notice → String
  | machineReset => "Machine reset"
  | loaded size address source =>
    "Loaded " ++ toString size ++ " bytes" ++ (source.map (" from " ++ ·)).getD "" ++
      " at 0x" ++ Text.hex 3 address
  | faulted kind pc word => kind ++ ": " ++ Text.hex 4 word ++ " at PC=0x" ++ Text.hex 3 pc
  | modeChanged old new pc =>
    "Mode " ++ old ++ " -> " ++ new ++ " at PC=0x" ++ Text.hex 3 pc
  | ran cycles elapsed => "Ran " ++ toString cycles ++ " cycles in " ++ seconds 3 elapsed
  | summary cycles elapsed faults =>
    "Ran " ++ Text.grouped cycles ++ " cycles in " ++ seconds 2 elapsed ++ " (" ++
      (Text.Binary64.ofFloat (rate cycles elapsed)).fixedGrouped 0 ++ " Hz)" ++ faultList faults
  | controls => "Controls: ESC=Quit, P=Pause, F5=Reset, +/-=Speed"
  | speed cycles => "Speed: " ++ toString cycles ++ " instructions per frame"
  | restarted => "Reset"
  | pausing cause => cause.message ++ ", pausing (F5 to reset)"
  | notLoaded name cause => "Could not load " ++ name ++ ": " ++ cause.message
  | remark text => text

/-- A notice that sums a session up. -/
def isSummary : Notice → Bool
  | summary .. => true
  | _ => false

end Notice

end Chip8
