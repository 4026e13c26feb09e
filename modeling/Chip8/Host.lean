import Chip8.Host.Session
import Chip8.Tone

/-! The host: opens a window and a mixer, runs a session on a program file, and sums it up. -/

namespace Chip8.Host

/-- The settings as they are configured, the content of the program file if there is one, and the
seconds that the session takes. The pace is an integer, as the number of cycles in a frame. A value of
another kind can be configured, but its sessions are not described: a run on it ends with its first turn,
whatever comes in. -/
structure Config where
  rom : String
  content : Option (List UInt8)
  seed : Value := .integer 0
  strict : Bool := false
  logLevel : Value := .text "INFO"
  scale : Value := .integer 10
  pace : Value := .integer 10
  scheme : Value := .text "classic"
  toneFrequency : Value := .integer 440
  elapsed : Float := 0
  mixerChannels : Nat := 1

/-- What is left of a run: the calls before the first turn and in each turn, the supervisor at its
construction and at the end, and the error that ended the run if one did. -/
structure Outcome where
  setup : List Call := []
  turns : List (List Call) := []
  machine : Option (Supervisor × Supervisor) := none
  error : Option Error := none

def journal (level : Value) : Except Error Journal := do
  let threshold ← Argument.level level
  return { logger := { threshold } }

/-- The program, if the file is there and its content fits. -/
def Config.load (c : Config) (s : Supervisor) : Supervisor × Except Error (List UInt8) :=
  match c.content with
  | none => (s, .error (.notFound c.rom))
  | some program =>
    match s.load (.bytes program) (some c.rom) with
    | (s, .ok _) => (s, .ok program)
    | (s, .error e) => (s, .error e)

def mixerCalls : List Call := [.openMixer 44100 (-16) 1, .start]

def windowCalls (rom : String) (scale : Int) : List Call :=
  [.openWindow (64 * scale) (32 * scale), .caption ("CHIP-8 - " ++ rom)]

/-- The last turn also closes the window. -/
def closeLast : List (List Call) → List (List Call)
  | [] => []
  | [calls] => [calls ++ [.quit]]
  | calls :: rest => calls :: closeLast rest

/-- The session on a stage that is set up. -/
def Config.play (c : Config) (stage : Stage) (first s : Supervisor) (pace : Int) (setup : List Call)
    (script : List (List Event)) : Outcome :=
  let session : Session := { supervisor := s.note .info .controls, pace }
  match session.loop stage script with
  | (session, turns, some e) =>
    { setup, turns, machine := some (first, session.supervisor), error := some e }
  | (session, turns, none) =>
    let last := session.supervisor.noteSummary c.elapsed
    { setup, turns := closeLast turns, machine := some (first, last) }

/-- What has to be right before the first turn, in the order in which it is looked at. -/
def Config.prepare (c : Config) : Except Error Scheme := do
  let frequency ← Argument.integer c.toneFrequency
  let _ ← Tone.create frequency 44100 0.2 c.mixerChannels
  Argument.scheme c.scheme

/-- A run on a script of events, one batch for each turn. A program that cannot be loaded ends it before
anything is opened, with a line in the log and no error. The pace is taken to be an integer. -/
def Config.run (c : Config) (script : List (List Event)) : Outcome :=
  match journal c.logLevel >>= fun j => Supervisor.create c.seed c.strict (.ok j) with
  | .error e => { error := some e }
  | .ok first =>
    match c.load first with
    | (s, .error e) => { machine := some (first, s.note .error (.notLoaded c.rom e)) }
    | (s, .ok program) =>
      match c.scale.toInt? with
      | none => { setup := mixerCalls, machine := some (first, s), error := some .wrongKind }
      | some scale =>
        let setup := mixerCalls ++ windowCalls c.rom scale
        match c.prepare with
        | .error e => { setup, machine := some (first, s), error := some e }
        | .ok scheme =>
          match c.pace.toInt? with
          | none =>
            { setup, turns := [[]], machine := some (first, s.note .info .controls),
              error := some .wrongKind }
          | some pace =>
            c.play { rom := c.rom, program, scale := c.scale, scheme } first s pace setup script

end Chip8.Host
