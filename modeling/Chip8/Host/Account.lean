import Chip8.Host.Course
import Chip8.Supervisor.History

/-! What the machine of a session has been through, turn by turn. The host keeps none of this; what it
writes at the end of a session is compared with it. -/

namespace Chip8.Host

/-- The deeds of a frame. A paused session has no frame. -/
def Session.deeds (s : Session) : List Deed :=
  if s.paused then [] else s.supervisor.loopDeeds s.pace.toNat

/-- The deeds of a turn, which are those of its frame. -/
def Turn.deeds (t : Turn) : List Deed := t.heard.deeds

/-- The history behind one more turn. A reset comes with the events, so before the frame. -/
def Turn.remember (h : History) (t : Turn) : History :=
  (if .keyDown .reset ∈ t.events then h.reset else h).addAll t.deeds

/-- What the machine has been through after a number of turns. -/
def history (turns : List Turn) : History :=
  turns.foldl Turn.remember {}

/-- How many cycles ran in a number of turns. -/
def cyclesIn (turns : List Turn) : Nat :=
  (turns.flatMap Turn.deeds).countP Deed.isLive

end Chip8.Host
