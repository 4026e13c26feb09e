/-! Random bytes from a counter-based generator. A key is mixed with a two-word counter in twenty
rounds; the mixed words give either the next key or a byte. Nothing but the seed and the number of
draws decides what comes next. -/

namespace Chip8.Random

structure Key where
  high : UInt32
  low : UInt32
deriving DecidableEq, Repr

namespace Key

def ofSeed (seed : Int) : Key :=
  ⟨0, UInt32.ofNat (seed % 4294967296).toNat⟩

def rotate (x : UInt32) (r : UInt32) : UInt32 :=
  (x <<< r) ||| (x >>> (32 - r))

/-- One round: add, rotate, mix. -/
def round (x : UInt32 × UInt32) (r : UInt32) : UInt32 × UInt32 :=
  let sum := x.1 + x.2
  (sum, rotate x.2 r ^^^ sum)

def rotations (group : Nat) : List UInt32 :=
  if group % 2 = 0 then [13, 15, 26, 6] else [17, 29, 16, 24]

/-- The word of the key schedule that belongs to position `i`, three in turn. -/
def scheduled (k : Key) (i : Nat) : UInt32 :=
  match i % 3 with
  | 0 => k.high
  | 1 => k.low
  | _ => k.high ^^^ k.low ^^^ 0x1BD11BDA

/-- Four rounds and the next words of the key schedule. -/
def group (k : Key) (x : UInt32 × UInt32) (i : Nat) : UInt32 × UInt32 :=
  let y := (rotations i).foldl round x
  (y.1 + k.scheduled (i + 1), y.2 + k.scheduled (i + 2) + UInt32.ofNat (i + 1))

/-- The key mixed with a counter. -/
def mix (k : Key) (counter : UInt32 × UInt32) : UInt32 × UInt32 :=
  (List.range 5).foldl k.group (counter.1 + k.scheduled 0, counter.2 + k.scheduled 1)

/-- The key with which the stream goes on after a draw. -/
def next (k : Key) : Key :=
  let y := k.mix (0, 0)
  ⟨y.1, y.2⟩

/-- The byte drawn with this key. -/
def byte (k : Key) : UInt8 :=
  let s := k.mix (0, 1)
  let y := Key.mix ⟨s.1, s.2⟩ (0, 0)
  (y.1 ^^^ y.2).toUInt8

/-- The key after a number of draws. -/
def after (k : Key) : Nat → Key
  | 0 => k
  | n + 1 => (k.after n).next

end Key

end Chip8.Random
