/-! The call stack: sixteen slots and the number of them in use. A push on a full stack and a pop
of an empty one give `none` and leave the caller to say what that means. `toList` is the view the
operations are described by, and unused slots are kept at zero so that equal views are equal stacks. -/

namespace Chip8

structure CallStack where
  slots : Vector UInt16 16
  depth : Nat
  depth_le : depth ≤ 16 := by omega
deriving DecidableEq, Repr

namespace CallStack

def empty : CallStack where
  slots := Vector.replicate 16 0
  depth := 0

/-- A stack holding the given addresses, the oldest first; what does not fit is left out. -/
def ofList (addresses : List UInt16) : CallStack where
  slots := Vector.ofFn fun i => addresses.getD i.val 0
  depth := min addresses.length 16
  depth_le := Nat.min_le_right _ _

/-- The return addresses, the oldest first. -/
def toList (s : CallStack) : List UInt16 :=
  s.slots.toList.take s.depth

/-- Only the low twelve bits of an address are kept. -/
def push? (s : CallStack) (address : UInt16) : Option CallStack :=
  if h : s.depth < 16 then
    some ⟨s.slots.set s.depth (address &&& 0xFFF), s.depth + 1, h⟩
  else none

/-- The slot a pop reads: the newest address, and the first slot of an empty stack. -/
def top (s : CallStack) : UInt16 :=
  have := s.depth_le
  s.slots[s.depth - 1]

/-- The newest address, and the stack without it. -/
def pop? (s : CallStack) : Option (UInt16 × CallStack) :=
  if 0 < s.depth then
    have := s.depth_le
    some (s.top, ⟨s.slots.set (s.depth - 1) 0, s.depth - 1, by omega⟩)
  else none

theorem push?_eq_none_iff (s : CallStack) (a : UInt16) : s.push? a = none ↔ s.depth = 16 := by
  have := s.depth_le
  unfold push?
  split <;> simp <;> omega

theorem pop?_eq_none_iff (s : CallStack) : s.pop? = none ↔ s.depth = 0 := by
  unfold pop?
  split <;> simp <;> omega

end CallStack

end Chip8
