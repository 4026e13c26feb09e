import Chip8.Host.Keyboard
import Chip8.Picture
import Chip8.Supervisor

/-! One session of the host, turn by turn. A turn takes the events that came in, runs a frame unless the
session is paused, starts or stops the tone, and shows the screen if it was redrawn. What the turn
asks of the window and the speaker is a list of calls. -/

namespace Chip8.Host

inductive Call
  | openMixer (rate format channels : Int)
  | start
  | openWindow (width height : Int)
  | caption (text : String)
  | play
  | stop
  | draw (picture : Picture)
  | flip
  | quit

/-- What stays the same through a session. -/
structure Stage where
  rom : String
  program : List UInt8
  scale : Value
  scheme : Scheme

structure Session where
  supervisor : Supervisor
  pace : Int
  running : Bool := true
  paused : Bool := false
  playing : Bool := false

namespace Session

def note (s : Session) (level : Level) (notice : Notice) : Session :=
  { s with supervisor := s.supervisor.note level notice }

def setPace (s : Session) (pace : Int) : Session :=
  { s with pace }.note .info (.speed pace)

/-- Power-on with the same program; a paused session stays paused. -/
def restart (stage : Stage) (s : Session) : Session :=
  let supervisor := (s.supervisor.reset.load (.bytes stage.program) (some stage.rom)).1
  { s with supervisor }.note .info .restarted

def press (stage : Stage) (s : Session) : HostKey → Session
  | .escape => { s with running := false }
  | .pause => { s with paused := !s.paused }
  | .reset => s.restart stage
  | .faster => s.setPace (min 100 (s.pace + 2))
  | .slower => s.setPace (max 1 (s.pace - 2))
  | .pad key => { s with supervisor := s.supervisor.setKey key true }
  | .unused => s

def handle (stage : Stage) (s : Session) : Event → Session
  | .quit => { s with running := false }
  | .keyDown key => s.press stage key
  | .keyUp (.pad key) => { s with supervisor := s.supervisor.setKey key false }
  | .keyUp _ => s
  | .focusLost => { s with supervisor := s.supervisor.releaseKeys }
  | .other => s

def handleAll (stage : Stage) (s : Session) (events : List Event) : Session :=
  events.foldl (handle stage) s

/-- A frame, unless the session is paused. An error of the machine pauses it; any other is passed on. -/
def runFrame (s : Session) : Session × Option Error :=
  if s.paused then (s, none)
  else
    match Argument.frameLength (.integer s.pace) with
    | .error e => (s, some e)
    | .ok cycles =>
      match s.supervisor.runFrame cycles with
      | (supervisor, .ok _) => ({ s with supervisor }, none)
      | (supervisor, .error e) =>
        if e.ofMachine then ({ s with supervisor, paused := true }.note .error (.pausing e), none)
        else ({ s with supervisor }, some e)

/-- The tone plays while the sound timer runs. -/
def updateTone (s : Session) : Session × List Call :=
  if s.supervisor.machine.sounding && !s.playing then ({ s with playing := true }, [.play])
  else if !s.supervisor.machine.sounding && s.playing then ({ s with playing := false }, [.stop])
  else (s, [])

def picture (stage : Stage) (s : Session) : Except Error Picture :=
  Picture.render (Argument.scale stage.scale) (.ok (stage.scheme.lit, stage.scheme.unlit))
    (.ok (.ofScreen s.supervisor.machine.screen))

/-- The screen is shown when it was redrawn since it was last shown. -/
def updateWindow (stage : Stage) (s : Session) : Session × List Call × Option Error :=
  match s.supervisor.consumeRedraw with
  | (_, false) => (s, [], none)
  | (supervisor, true) =>
    let s := { s with supervisor }
    match s.picture stage with
    | .ok p => (s, [.draw p, .flip], none)
    | .error e => (s, [], some e)

/-- One turn of the loop; an error ends it where it arises. -/
def turn (stage : Stage) (s : Session) (events : List Event) : Session × List Call × Option Error :=
  match (s.handleAll stage events).runFrame with
  | (s, some e) => (s, [], some e)
  | (s, none) =>
    let (s, sound) := s.updateTone
    let (s, shown, error) := s.updateWindow stage
    (s, sound ++ shown, error)

/-- Turns until one of them leaves the session stopped or fails. -/
def loop (stage : Stage) (s : Session) :
    List (List Event) → Session × List (List Call) × Option Error
  | [] => (s, [], none)
  | events :: rest =>
    match s.turn stage events with
    | (s, calls, some e) => (s, [calls], some e)
    | (s, calls, none) =>
      if s.running then
        let (s, turns, error) := loop stage s rest
        (s, calls :: turns, error)
      else (s, [calls], none)

end Session

end Chip8.Host
