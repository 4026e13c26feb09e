import Chip8.Keypad
import Chip8.Program
import Chip8.Random

/-! Arguments as hosts hand them in, and what each parameter accepts. A flag passes for the number 0 or
1 where a number is counted with, but names no key. -/

namespace Chip8.Argument

def integer (v : Value) : Except Error Int :=
  match v.toInt? with
  | some i => .ok i
  | none => .error .wrongKind

/-- The cycles of a frame, at least one. -/
def frameLength (v : Value) : Except Error Nat :=
  match v.toInt?, v with
  | some i, _ => if i ≤ 0 then .error (.frameLengthRefused v) else .ok i.toNat
  | none, .real x => if x ≤ 0 then .error (.frameLengthRefused v) else .error .wrongKind
  | none, _ => .error .wrongKind

def key (v : Value) : Except Error Register :=
  match v with
  | .integer i =>
    if h : 0 ≤ i ∧ i < 16 then .ok ⟨i.toNat, by omega⟩ else .error (.keyIndexRefused v)
  | .real x => if 0 ≤ x && x < 16 then .error .wrongKind else .error (.keyIndexRefused v)
  | _ => .error .wrongKind

/-- Numbers are down when they are not zero. -/
def keyState : Value → Except Error Bool
  | .flag b => .ok b
  | .integer i => .ok (i ≠ 0)
  | .real x => .ok !(x == 0)
  | _ => .error .wrongKind

/-- Sixteen key states in one flat list. -/
def keypad (v : Value) : Except Error Keypad := do
  let states ← v.leaves.mapM keyState
  match v.shape? with
  | none => .error .shapeMismatch
  | some shape =>
    if shape = [16] then .ok (Keypad.ofFn fun k => states.getD k.val false)
    else .error (.keypadShapeRefused shape)

/-- A whole number that 64 bits hold with its sign. -/
def wide (i : Int) : Except Error Int :=
  if -9223372036854775808 ≤ i ∧ i < 9223372036854775808 then .ok i else .error .tooLarge

/-- The seed of a supervised machine. -/
def seed (v : Value) : Except Error Nat :=
  match v.toInt? with
  | some i => if i < 0 then .error (.seedRefused v) else .ok i.toNat
  | none => .error (.seedRefused v)

/-- The key a seed gives, if 64 bits hold the seed with its sign. -/
def randomKey (seed : Int) : Except Error Random.Key :=
  (wide seed).map Random.Key.ofSeed

/-- A number that 32 bits hold with its sign. -/
def narrow (v : Value) : Except Error Int := do
  let i ← integer v
  if -2147483648 ≤ i ∧ i < 2147483648 then .ok i else .error .tooLarge

def level : Value → Except Error Level
  | .text s =>
    match Level.ofText? s with
    | some l => .ok l
    | none => .error (.levelRefused s)
  | _ => .error .notText

def scheme (v : Value) : Except Error Scheme :=
  match v with
  | .text s =>
    match Scheme.ofName? s with
    | some c => .ok c
    | none => .error (.schemeRefused v)
  | .list _ | .record _ => .error .wrongKind
  | _ => .error (.schemeRefused v)

/-- A real number as the whole number next to it on the side of zero. -/
def truncated (x : Float) : Except Error Int :=
  match Text.Binary64.ofFloat x with
  | .notANumber => .error .notNumber
  | .infinite _ => .error .tooLarge
  | b => wide b.truncate

/-- How many pixels wide a cell is drawn; a fraction of a pixel is left out. -/
def scale (v : Value) : Except Error Nat :=
  match v.toInt?, v with
  | some i, _ => if i < 1 then .error (.scaleRefused v) else .ok i.toNat
  | none, .real x =>
    if x < 1 then .error (.scaleRefused v)
    else (truncated x).map Int.toNat
  | none, _ => .error .wrongKind

/-- A palette position. -/
def position : Value → Except Error Int
  | .flag b => .ok (if b then 1 else 0)
  | .integer i => wide i
  | .real x => truncated x
  | .text _ => .error .notNumber
  | _ => .error .wrongKind

/-- One byte of a colour; an integer has to be one, a real number is taken modulo 256. -/
def channel : Value → Except Error UInt8
  | .flag b => .ok (if b then 1 else 0)
  | .integer i => if 0 ≤ i ∧ i < 256 then .ok (UInt8.ofNat i.toNat) else .error .tooLarge
  | .real x => (truncated x).map fun i => UInt8.ofNat (i % 256).toNat
  | .text _ => .error .notNumber
  | _ => .error .wrongKind

/-- Two colours with the same channels; the unlit one comes first in the palette. -/
def colours (lit unlit : Value) : Except Error (Colour × Colour) :=
  match lit, unlit with
  | .list lit, .list unlit => do
    if lit.length ≠ unlit.length then throw .shapeMismatch
    let unlit ← unlit.mapM channel
    return (← lit.mapM channel, unlit)
  | _, _ => .error .wrongKind

def real : Value → Except Error Float
  | .real x => .ok x
  | v => (integer v).map Float.ofInt

/-- A number that is to be written in hexadecimal. -/
def hexadecimal (v : Value) : Except Error Int :=
  match v.toInt?, v with
  | some i, _ => .ok i
  | none, .real _ | none, .text _ => .error .notNumber
  | none, _ => .error .wrongKind

end Chip8.Argument
