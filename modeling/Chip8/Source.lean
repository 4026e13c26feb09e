import Chip8.Supervisor

/-! Program data as a caller holds it, which may be a generator: the first reading uses it up. A load
goes through three stages, each of which reads what it is given. The first reads the data itself, the
others the array that the stage before made of it. -/

namespace Chip8

inductive Source
  | held (data : ProgramData)
  /-- Values that can be gone through once. -/
  | generator (items : List Value)

namespace Source

/-- What the first reading finds. -/
def data : Source → ProgramData
  | held data => data
  | generator items => .value (.list items)

/-- What a reading leaves for the next one. -/
def rest : Source → Source
  | held data => held data
  | generator _ => generator []

def read (src : Source) : Except Error (List UInt8) × Source :=
  (src.data.image, src.rest)

/-- An image, once it is an array of bytes. -/
def ofImage (image : List UInt8) : Source :=
  held (.integers (image.map fun byte => (byte.toNat : Int)))

end Source

namespace Machine

def writeFrom (m : Machine) (address : Int) (src : Source) : Except Error Machine × Source :=
  match src.read with
  | (.error e, rest) => (.error e, rest)
  | (.ok image, rest) => (m.writeImage address image, rest)

def loadFrom (m : Machine) (src : Source) : Except Error Machine × Source :=
  match src.read with
  | (.error e, rest) => (.error e, rest)
  | (.ok image, rest) =>
    if maxProgramSize < image.length then
      (.error (.outOfBounds programStart image.length (programStart + maxProgramSize)), rest)
    else
      match m.writeFrom programStart (.ofImage image) with
      | (.error e, _) => (.error e, rest)
      | (.ok m', _) => (.ok { m' with pc := UInt16.ofNat programStart }, rest)

end Machine

namespace Supervisor

def loadFrom (s : Supervisor) (src : Source) (name : Option String) :
    (Supervisor × Except Error Unit) × Source :=
  match src.read with
  | (.error e, rest) => ((s, .error e), rest)
  | (.ok image, rest) =>
    match s.machine.loadFrom (.ofImage image) with
    | (.error e, _) => ((s, .error e), rest)
    | (.ok machine, _) =>
      let journal := s.journal.noteLoad image.length Machine.programStart name
      (({ s with machine, journal }, .ok ()), rest)

end Supervisor

end Chip8
