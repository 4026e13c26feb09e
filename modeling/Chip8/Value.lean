import Chip8.Text.Binary64
import Chip8.Text.Quoted

/-! Values as hosts hand them in: program data and arguments arrive without a fixed type, and what they
are is found out when they are used. -/

namespace Chip8

inductive Value
  | null
  | flag (b : Bool)
  | integer (i : Int)
  | real (x : Float)
  | text (s : String)
  | list (items : List Value)
  | record (entries : List (String × Value))

namespace Value

/-- What counts as true: everything but null, false, zero and the empty collections. -/
def truthy : Value → Bool
  | null => false
  | flag b => b
  | integer i => i ≠ 0
  | real x => !(x == 0)
  | text s => s ≠ ""
  | list l => !l.isEmpty
  | record e => !e.isEmpty

def kindName : Value → String
  | null => "NoneType"
  | flag _ => "bool"
  | integer _ => "int"
  | real _ => "float"
  | text _ => "str"
  | list _ => "list"
  | record _ => "dict"

/-- A whole number; a flag counts as 0 or 1. -/
def toInt? : Value → Option Int
  | flag b => some (if b then 1 else 0)
  | integer i => some i
  | _ => none

mutual

/-- A value as it appears inside another one, where texts are quoted. -/
def quoted : Value → String
  | null => "None"
  | flag b => if b then "True" else "False"
  | integer i => toString i
  | real x => (Text.Binary64.ofFloat x).shortest
  | text s => Text.quoted s
  | list l => "[" ++ quotedItems l ++ "]"
  | record e => "\x7b" ++ quotedEntries e ++ "\x7d"

def quotedItems : List Value → String
  | [] => ""
  | [v] => v.quoted
  | v :: rest => v.quoted ++ ", " ++ quotedItems rest

def quotedEntries : List (String × Value) → String
  | [] => ""
  | [(k, v)] => Text.quoted k ++ ": " ++ v.quoted
  | (k, v) :: rest => Text.quoted k ++ ": " ++ v.quoted ++ ", " ++ quotedEntries rest

end

/-- A value on its own, where a text stands without quotes. -/
def plain : Value → String
  | text s => s
  | v => v.quoted

end Value

end Chip8
