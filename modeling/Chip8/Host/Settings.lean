import Chip8.Host

/-! Settings and scripts in words. A setting is a word `key=value`; a line of a script holds the events
of one turn, a word for each. -/

namespace Chip8.Host

/-- What stands before the first mark of a word and what stands behind it. -/
def splitAt? (mark : Char) (word : String) : Option (String × String) :=
  let l := word.toList
  match l.dropWhile (· ≠ mark) with
  | [] => none
  | _ :: rest => some (String.ofList (l.takeWhile (· ≠ mark)), String.ofList rest)

def words (line : String) : List String :=
  ((line.map fun c => if c.isWhitespace then ' ' else c).splitOn " ").filter (· ≠ "")

def natural? (digits : List Char) : Option Int :=
  if digits ≠ [] ∧ digits.all Char.isDigit then
    some (digits.foldl (fun n c => 10 * n + (c.toNat - 48 : Nat)) 0)
  else none

def number? (word : String) : Option Int :=
  match word.toList with
  | '-' :: digits => (natural? digits).map fun n => -n
  | digits => natural? digits

/-- A word is a flag, nothing or a number where it spells one, and a text otherwise. -/
def valueOf (word : String) : Value :=
  match word with
  | "true" => .flag true
  | "false" => .flag false
  | "null" => .null
  | _ => ((number? word).map Value.integer).getD (.text word)

/-- The configuration with one setting changed, if there is a setting of that name. -/
def Config.set? (c : Config) (key word : String) : Option Config :=
  match key with
  | "rom" => some { c with rom := word }
  | "seed" => some { c with seed := valueOf word }
  | "strict" => some { c with strict := (valueOf word).truthy }
  | "log_level" => some { c with logLevel := valueOf word }
  | "scale" => some { c with scale := valueOf word }
  | "instructions_per_frame" => some { c with pace := valueOf word }
  | "color_scheme" => some { c with scheme := valueOf word }
  | "tone_frequency" => some { c with toneFrequency := valueOf word }
  | _ => none

/-- The configuration that a list of settings describes, or the first word that is no setting. -/
def Config.ofWords (settings : List String) : Except String Config :=
  settings.foldlM (fun c word =>
    match (splitAt? '=' word).bind fun (key, value) => c.set? key value with
    | some c => .ok c
    | none => .error word) { rom := "", content := none }

/-- A key goes down with `down:`, up with `up:`; `blur` is the loss of the focus. -/
def Event.ofWord (word : String) : Event :=
  match word, splitAt? ':' word with
  | "quit", _ => .quit
  | "blur", _ => .focusLost
  | _, some ("down", key) => .keyDown (.ofName key)
  | _, some ("up", key) => .keyUp (.ofName key)
  | _, _ => .other

/-- The events of one turn. -/
def Event.ofLine (line : String) : List Event :=
  (words line).map Event.ofWord

end Chip8.Host
