import Chip8.Log.Notice

/-! A levelled logger. It keeps the records that reach its threshold, in order, each with the time at
which it was written; lines are made of them afterwards. -/

namespace Chip8

/-- A notice under the tag it was logged with; the tag is shown as it was given. -/
structure Record where
  tag : String
  notice : Notice

def Record.level (r : Record) : Level := Level.ofTag r.tag

structure Entry where
  elapsed : Float
  record : Record

/-- `now` is the time since the logger was made. -/
structure Logger where
  name : String := "chip8vm"
  threshold : Level := .info
  coloured : Bool := false
  stamped : Bool := true
  now : Float := 0
  entries : Array Entry := #[]

namespace Logger

def enabled (l : Logger) (tag : String) : Bool :=
  decide (l.threshold.rank ≤ (Level.ofTag tag).rank)

def log (l : Logger) (tag : String) (notice : Notice) : Logger :=
  if l.enabled tag then { l with entries := l.entries.push ⟨l.now, ⟨tag, notice⟩⟩ } else l

def note (l : Logger) (level : Level) (notice : Notice) : Logger :=
  l.log level.name notice

def records (l : Logger) : List Record :=
  l.entries.toList.map Entry.record

def stamp (elapsed : Float) : String :=
  "[" ++ Text.padLeft 8 ((Text.Binary64.ofFloat elapsed).fixed 2) ++ "s]"

/-- A tag that spells no level has no colour of its own, but the colour is reset behind it. -/
def colourTag (tag shown : String) : String :=
  let start := (Level.ofText? tag).map fun l => "\x1b[" ++ toString l.colour ++ "m"
  start.getD "" ++ shown ++ "\x1b[0m"

def line (l : Logger) (e : Entry) : String :=
  let tag := "[" ++ Text.padLeft 8 e.record.tag ++ "]"
  (if l.stamped then stamp e.elapsed else "") ++
    (if l.coloured then colourTag e.record.tag tag else tag) ++
    "[" ++ l.name ++ "] " ++ e.record.notice.message ++ "\n"

/-- The lines of the entries from position `start` on. -/
def textFrom (l : Logger) (start : Nat) : String :=
  String.join ((l.entries.toList.drop start).map l.line)

end Logger

end Chip8
