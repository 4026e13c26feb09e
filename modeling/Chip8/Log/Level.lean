/-! Log levels. A level may be spelled in any case; a tag that spells no level counts as `INFO`. -/

namespace Chip8

inductive Level
  | debug | info | warning | error | critical
deriving DecidableEq, Repr

namespace Level

def all : List Level := [debug, info, warning, error, critical]

def rank : Level → Nat
  | debug => 0
  | info => 1
  | warning => 2
  | error => 3
  | critical => 4

def name : Level → String
  | debug => "DEBUG"
  | info => "INFO"
  | warning => "WARNING"
  | error => "ERROR"
  | critical => "CRITICAL"

/-- The number of the terminal colour: cyan, green, yellow, red, magenta. -/
def colour : Level → Nat
  | debug => 36
  | info => 32
  | warning => 33
  | error => 31
  | critical => 35

/-- The capital of a letter, where it is an ASCII letter; outside ASCII that holds of the dotless
`ı` and the long `ſ` alone. Other letters are left as they are: no level is spelled with them. -/
def capital (c : Char) : Char :=
  if c = 'ı' then 'I'
  else if c = 'ſ' then 'S'
  else c.toUpper

def ofText? (s : String) : Option Level :=
  all.find? fun l => l.name.toList = s.toList.map capital

/-- The level a tag is weighed at. -/
def ofTag (tag : String) : Level :=
  (ofText? tag).getD info

theorem ofText?_name (l : Level) : ofText? l.name = some l := by
  cases l <;> decide +kernel

end Level

end Chip8
