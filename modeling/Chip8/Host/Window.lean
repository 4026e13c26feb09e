import Chip8.Host

/-! What the window of a session shows: the picture that was drawn into it last, whatever has become of
the machine since. A reset gives the machine a blank screen; it draws nothing. -/

namespace Chip8.Host

def Call.picture? : Call → Option Picture
  | .draw p => some p
  | _ => none

/-- The picture that is drawn last, if one is drawn at all. -/
def lastPicture (calls : List Call) : Option Picture :=
  (calls.filterMap Call.picture?).getLast?

/-- The picture in a window, if it has one, and whether the machine was reset since. -/
structure Window where
  shown : Option Picture := none
  outlived : Bool := false

namespace Window

/-- The events of a turn come before its calls, so what is drawn in a turn is younger than a reset. -/
def turn (w : Window) (events : List Event) (calls : List Call) : Window :=
  match lastPicture calls with
  | some p => { shown := some p }
  | none => { w with outlived := w.outlived || decide (.keyDown .reset ∈ events) }

def turns (w : Window) (turns : List (List Event × List Call)) : Window :=
  turns.foldl (fun w t => w.turn t.1 t.2) w

end Window

/-- A window shows a screen when it has the picture of it. One that has none shows a blank screen. -/
def Shows (picture : Screen → Except Error Picture) (shown : Option Picture) (screen : Screen) :
    Prop :=
  match shown with
  | none => screen = Screen.blank
  | some p => picture screen = .ok p

def Stage.picture (stage : Stage) (screen : Screen) : Except Error Picture :=
  Picture.render (Argument.scale stage.scale) (.ok (stage.scheme.lit, stage.scheme.unlit))
    (.ok (.ofScreen screen))

/-- The picture of a screen in the configured size and colours. -/
def Config.picture (c : Config) (screen : Screen) : Except Error Picture := do
  let scheme ← Argument.scheme c.scheme
  Picture.render (Argument.scale c.scale) (.ok (scheme.lit, scheme.unlit)) (.ok (.ofScreen screen))

/-- The window at the end of a run. -/
def Config.window (c : Config) (script : List (List Event)) : Window :=
  Window.turns {} (script.zip (c.run script).turns)

end Chip8.Host
