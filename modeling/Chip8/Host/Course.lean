import Chip8.Host

/-! The course of a session, turn by turn: the events that came in, the session behind them, and what the
turn left. The loop of the session is made of the same turns and keeps less of them. -/

namespace Chip8.Host

/-! ## What ends a session -/

def Event.stops : Event → Bool
  | .quit | .keyDown .escape => true
  | _ => false

/-- One of the events of the turn ends the session. -/
def stopping (events : List Event) : Bool := events.any Event.stops

/-- The turns of a script up to the first that ends the session. -/
def taken : List (List Event) → List (List Event)
  | [] => []
  | events :: rest => events :: if stopping events then [] else taken rest

/-! ## Turns -/

/-- A turn with the session as it was heard, which is the one behind the events, and the one left. -/
structure Turn where
  events : List Event
  heard : Session
  calls : List Call
  error : Option Error
  left : Session

namespace Session

def take (stage : Stage) (s : Session) (events : List Event) : Turn :=
  let (left, calls, error) := s.turn stage events
  { events, heard := s.handleAll stage events, calls, error, left }

/-- The turns of a session, up to the one that leaves it stopped or fails. -/
def course (stage : Stage) (s : Session) : List (List Event) → List Turn
  | [] => []
  | events :: rest =>
    let t := s.take stage events
    t :: if t.error.isNone && t.left.running then t.left.course stage rest else []

/-- The pace is one that the keys for it can lead to from a pace of `pace`. -/
def InPace (s : Session) (pace : Int) : Prop :=
  1 ≤ s.pace ∧ s.pace ≤ max 100 pace

/-- The frame of a turn: none while the session is paused, else one at its pace. It comes to its end, or
to a fault that pauses the session. -/
inductive Framed (s : Session) : Session → Prop
  | paused (hp : s.paused = true) : Framed s s
  | ran {n ran : Nat} {supervisor : Supervisor} (hp : s.paused = false) (hn : (n : Int) = s.pace)
      (hr : s.supervisor.runFrame n = (supervisor, .ok ran)) : Framed s { s with supervisor }
  | failed {n : Nat} {supervisor : Supervisor} {f : Fault} {pc word : UInt16}
      (hp : s.paused = false) (hn : (n : Int) = s.pace)
      (hr : s.supervisor.runFrame n = (supervisor, .error (.execution f pc word))) :
      Framed s { s with
        supervisor := supervisor.note .error (.pausing (.execution f pc word))
        paused := true }

/-- What the end of a turn makes of the session: the flag is asked for, the tone goes with the timer. -/
def settled (s : Session) : Session :=
  { s with supervisor := s.supervisor.consumeRedraw.1, playing := s.supervisor.machine.sounding }

end Session

/-- The session behind a number of turns. -/
def leftBy (s : Session) (turns : List Turn) : Session :=
  (turns.getLast?.map Turn.left).getD s

/-- Whether a call starts the tone, `true`, or stops it. -/
def Call.tone? : Call → Option Bool
  | .play => some true
  | .stop => some false
  | _ => none

/-- The starts and stops of the tone, in order. -/
def tones (turns : List Turn) : List Bool :=
  (turns.flatMap Turn.calls).filterMap Call.tone?

/-- A turn that comes to its end. The tone is started or stopped if the sound timer says other than
before, and nothing is closed. -/
structure Turn.Complete (t : Turn) : Prop where
  error : t.error = none
  left : ∃ s, t.heard.Framed s ∧ t.left = s.settled
  tone : t.calls.filterMap Call.tone? =
    if t.left.playing = t.heard.playing then [] else [t.left.playing]
  unclosed : Call.quit ∉ t.calls

/-! ## What the keypad hears -/

/-- An event that reports a key of the keypad: its key on the keyboard goes down or up, or the keyboard is
lost, and with it the events of keys that go up. -/
def Event.reports (k : Register) (e : Event) : Bool :=
  e = .keyDown (.pad k) || e = .keyUp (.pad k) || e = .focusLost

/-- An event that has something to do with a key: one that reports it, or a reset. -/
def Event.concerns (k : Register) (e : Event) : Bool :=
  e.reports k || e = .keyDown .reset

/-- All events of a number of turns, in order. -/
def delivered (turns : List Turn) : List Event :=
  turns.flatMap Turn.events

/-! ## From a configuration -/

/-- The program fits and the settings make sense; `pace`, which is an integer, is the number of cycles in
a frame. -/
structure Config.Valid (c : Config) (pace : Int) : Prop where
  program : ∃ program, c.content = some program ∧ program.length ≤ Machine.maxProgramSize
  seed : ∃ seed key, Argument.seed c.seed = .ok seed ∧ Argument.randomKey seed = .ok key
  level : ∃ level, Argument.level c.logLevel = .ok level
  scheme : ∃ scheme, Argument.scheme c.scheme = .ok scheme
  tone : ∃ frequency tone, Argument.integer c.toneFrequency = .ok frequency ∧
    Tone.create frequency 44100 0.2 c.mixerChannels = .ok tone
  scale : ∃ scale, c.scale.toInt? = some scale ∧ 1 ≤ scale
  pace : c.pace.toInt? = some pace ∧ 1 ≤ pace

/-- What a run has before its first turn. -/
structure Opening where
  first : Supervisor
  setup : List Call
  stage : Stage
  session : Session

/-- The opening of a run, or the first error on the way to it. -/
def Config.opening (c : Config) : Except Error Opening := do
  let j ← journal c.logLevel
  let first ← Supervisor.create c.seed c.strict (.ok j)
  let program ← (c.load first).2
  let scale ← Argument.integer c.scale
  let scheme ← c.prepare
  let pace ← Argument.integer c.pace
  return {
    first
    setup := mixerCalls ++ windowCalls c.rom scale
    stage := { rom := c.rom, program, scale := c.scale, scheme }
    session := { supervisor := (c.load first).1.note .info .controls, pace } }

/-- The turns of a run. One that is not opened has none. -/
def Config.course (c : Config) (script : List (List Event)) : List Turn :=
  match c.opening with
  | .ok o => o.session.course o.stage script
  | .error _ => []

end Chip8.Host
