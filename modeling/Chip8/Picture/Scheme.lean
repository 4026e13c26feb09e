/-! Colours, and the named pairs of a colour for lit pixels and one for the rest. A colour has one byte
for each channel. -/

namespace Chip8

abbrev Colour := List UInt8

structure Scheme where
  name : String
  lit : Colour
  unlit : Colour
deriving DecidableEq, Repr

namespace Scheme

def classic : Scheme := ⟨"classic", [0, 255, 0], [0, 0, 0]⟩

def all : List Scheme :=
  [classic,
    ⟨"amber", [255, 176, 0], [0, 0, 0]⟩,
    ⟨"white", [255, 255, 255], [0, 0, 0]⟩,
    ⟨"blue", [0, 255, 255], [0, 0, 64]⟩,
    ⟨"retro", [255, 255, 0], [64, 0, 64]⟩]

def ofName? (name : String) : Option Scheme :=
  all.find? fun s => s.name = name

end Scheme

end Chip8
