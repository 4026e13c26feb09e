import Chip8.Error

/-! Program data and the byte image it stands for. Data comes as bytes, as an array of numbers of one
declared kind, or as a value of any sort. A value is read as a list; the numbers in it, however deeply
nested, must be in step with each other and of an integer kind, and the kind of a mixture is the
join of the kinds of its members. Only then are the bounds of a byte checked. -/

namespace Chip8

/-- The kind that the members of an array have in common; a text kind knows its longest text. -/
inductive ElementKind
  | flag | signed | unsigned | real | object
  | text (width : Nat)
deriving DecidableEq, Repr

namespace ElementKind

def name : ElementKind → String
  | flag => "bool"
  | signed => "int64"
  | unsigned => "uint64"
  | real => "float64"
  | object => "object"
  | text width => "<U" ++ toString width

def isInteger : ElementKind → Bool
  | signed | unsigned => true
  | _ => false

/-- An integer is signed if 64 bits hold it with a sign, else unsigned if they hold it without one. -/
def ofInteger (i : Int) : ElementKind :=
  if -9223372036854775808 ≤ i ∧ i < 9223372036854775808 then signed
  else if 0 ≤ i ∧ i < 18446744073709551616 then unsigned
  else object

def ofLeaf : Value → ElementKind
  | .flag _ => flag
  | .integer i => ofInteger i
  | .real _ => real
  | .text s => text (max 1 s.length)
  | .null | .list _ | .record _ => object

/-- The room a member needs when it is written out as text. -/
def textWidth : ElementKind → Nat
  | flag => 5
  | signed => 21
  | unsigned => 20
  | real => 32
  | object => 0
  | text width => width

/-- No 64-bit integer kind holds both signed and unsigned numbers, so these meet in the reals. -/
def join : ElementKind → ElementKind → ElementKind
  | object, _ | _, object => object
  | text w, k => text (max w k.textWidth)
  | k, text w => text (max w k.textWidth)
  | flag, k | k, flag => k
  | signed, signed => signed
  | unsigned, unsigned => unsigned
  | _, _ => real

end ElementKind

namespace Value

mutual

/-- The lengths of the nested lists from the outside in, or `none` when they are ragged. -/
def shape? : Value → Option (List Nat)
  | list l =>
    match itemShapes? l with
    | none => none
    | some [] => some [0]
    | some (first :: rest) =>
      if rest.all (· = first) then some ((rest.length + 1) :: first) else none
  | _ => some []

def itemShapes? : List Value → Option (List (List Nat))
  | [] => some []
  | v :: rest =>
    match v.shape?, itemShapes? rest with
    | some s, some ss => some (s :: ss)
    | _, _ => none

end

mutual

/-- What nested lists hold, from left to right. -/
def leaves : Value → List Value
  | list l => itemLeaves l
  | v => [v]

def itemLeaves : List Value → List Value
  | [] => []
  | v :: rest => v.leaves ++ itemLeaves rest

end

/-- What a value gives when it is gone through: a text its characters, a record its keys. -/
def elements? : Value → Option (List Value)
  | text s => some (s.toList.map fun c => text c.toString)
  | list l => some l
  | record e => some (e.map fun entry => text entry.1)
  | _ => none

end Value

inductive ProgramData
  | bytes (content : List UInt8)
  | value (v : Value)
  /-- An array whose declared kind is an integer kind. -/
  | integers (elements : List Int)
  /-- An array of any other declared kind. -/
  | others (kind : String) (count : Nat)

namespace ProgramData

def ofIntegers (elements : List Int) : Except Error (List UInt8) :=
  if elements.all fun i => 0 ≤ i ∧ i ≤ 255 then .ok (elements.map fun i => UInt8.ofNat i.toNat)
  else .error .notByteRange

/-- The kind of a list of members, joined from the left. -/
def kindOf (first : Value) (rest : List Value) : ElementKind :=
  rest.foldl (fun k v => k.join (.ofLeaf v)) (.ofLeaf first)

def ofElements (l : List Value) : Except Error (List UInt8) :=
  if ((Value.list l).shape?).isNone then .error .shapeMismatch
  else
    match (Value.list l).leaves with
    | [] => .ok []
    | first :: rest =>
      let kind := kindOf first rest
      if kind.isInteger then ofIntegers ((first :: rest).filterMap Value.toInt?)
      else .error (.notIntegers kind.name)

/-- The image, flat and in order. An empty array has an empty image whatever its kind. -/
def image : ProgramData → Except Error (List UInt8)
  | bytes content => .ok content
  | value v =>
    match v.elements? with
    | none => .error (.notBytes v.kindName)
    | some l => ofElements l
  | integers elements => ofIntegers elements
  | others kind count => if count = 0 then .ok [] else .error (.notIntegers kind)

end ProgramData

end Chip8
