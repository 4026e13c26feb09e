import Chip8.Fault
import Chip8.Log.Level
import Chip8.Picture.Scheme
import Chip8.Value

/-! Everything an operation can refuse to do, by cause, and the wording of those causes that are put
into words. -/

namespace Chip8

inductive Error
  /-- A program image does not fit below the limit. -/
  | outOfBounds (address : Int) (size : Nat) (limit : Nat)
  /-- An instruction could not be executed as written. -/
  | execution (fault : Fault) (pc word : UInt16)
  | seedRefused (given : Value)
  | keyIndexRefused (given : Value)
  | keypadShapeRefused (shape : List Nat)
  | frameLengthRefused (given : Value)
  | frameCountRefused
  | windowRefused (address length : Int)
  | levelRefused (given : String)
  | schemeRefused (given : Value)
  | scaleRefused (given : Value)
  | notBytes (kind : String)
  | notIntegers (elementKind : String)
  | notByteRange
  /-- Lists whose lengths do not agree, sizes below zero, or blocks that do not fit each other. -/
  | shapeMismatch
  /-- A value of a kind that does not go with the operation. -/
  | wrongKind
  /-- A text or an undefined number where a whole number is read. -/
  | notNumber
  /-- A number that does not fit its machine type. -/
  | tooLarge
  /-- A level that is no text. -/
  | notText
  | notFound (name : String)
  | divisionByZero
  | outsidePalette
  | modeWithoutName

namespace Error

def outOfBoundsText (size : String) (address limit : Int) : String :=
  size ++ " bytes at 0x" ++ Text.hex 3 address ++ " exceed the memory limit 0x" ++
    Text.hex 3 limit ++ " (" ++ toString (max (limit - address) 0) ++ " bytes available)"

def executionText (description : String) (pc word : Int) : String :=
  description ++ " at PC=0x" ++ Text.hex 3 pc ++ " (instruction " ++ Text.hex 4 word ++ ")"

/-- Sizes in parentheses; a single one is followed by a comma. -/
def shapeText : List Nat → String
  | [n] => "(" ++ toString n ++ ",)"
  | shape => "(" ++ ", ".intercalate (shape.map toString) ++ ")"

def available (names : List String) : String :=
  ". Available: [" ++ ", ".intercalate (names.map Text.quoted) ++ "]"

def message : Error → String
  | outOfBounds address size limit => outOfBoundsText (toString size) address limit
  | execution fault pc word => executionText fault.description pc.toNat word.toNat
  | seedRefused v => "Seed must be a non-negative integer, got " ++ v.quoted
  | keyIndexRefused v => "Key index must be in 0-15, got " ++ v.plain
  | keypadShapeRefused shape => "Expected 16 key states, got shape " ++ shapeText shape
  | frameLengthRefused v => "instructions_per_frame must be positive, got " ++ v.plain
  | frameCountRefused => "num_frames and instructions_per_frame must be positive"
  | windowRefused address length =>
    "Cannot read " ++ toString length ++ " bytes at 0x" ++ Text.hex 3 address
  | levelRefused given => "Unknown log level '" ++ given ++ "'" ++ available (Level.all.map Level.name)
  | schemeRefused v => "Unknown color scheme '" ++ v.plain ++ "'" ++ available (Scheme.all.map Scheme.name)
  | scaleRefused v => "Scale must be at least 1, got " ++ v.plain
  | notBytes kind => "Expected bytes or an iterable of integers, got " ++ kind
  | notIntegers kind => "Program bytes must be integers, got dtype " ++ kind
  | notByteRange => "Program bytes must be in the range 0-255"
  | shapeMismatch => "shapes do not agree"
  | wrongKind => "a value of the wrong kind"
  | notNumber => "not a number"
  | tooLarge => "a number too large"
  | notText => "a level must be a text"
  | notFound name => "[Errno 2] No such file or directory: " ++ Text.quoted name
  | divisionByZero => "division by zero"
  | outsidePalette => "no such colour"
  | modeWithoutName => "a mode without a name"

/-- The errors of the machine itself, as against arguments that make no sense. -/
def ofMachine : Error → Bool
  | outOfBounds .. | execution .. => true
  | _ => false

end Error

end Chip8
