import Chip8.CallStack

/-! The call stack in use: pushes and pops as they work on the slots, each with what it reports, and the
same on a list of numbers. A slot is written in any case, the last one of a full stack and the first one
of an empty stack too; where the stack has no room or nothing to give, its old slots stay. -/

namespace Chip8.CallStack

theorem clamped_lt (s : CallStack) : min s.depth 15 < 16 :=
  Nat.lt_succ_of_le (Nat.min_le_right _ _)

theorem newest_lt (s : CallStack) : s.depth - 1 < 16 :=
  Nat.lt_succ_of_le (Nat.sub_le_sub_right s.depth_le 1)

/-- The stack behind a push, and whether it was full before. -/
def push (s : CallStack) (address : UInt16) : CallStack × Bool :=
  let written := s.slots.set (min s.depth 15) (address &&& 0xFFF) s.clamped_lt
  ({ slots := if 16 ≤ s.depth then s.slots else written
     depth := if 16 ≤ s.depth then s.depth else s.depth + 1
     depth_le := by have := s.depth_le; split <;> omega }, decide (16 ≤ s.depth))

/-- The stack behind a pop, the address in the slot that was read, and whether the stack was empty. -/
def pop (s : CallStack) : CallStack × UInt16 × Bool :=
  let cleared := s.slots.set (s.depth - 1) 0 s.newest_lt
  ({ slots := if s.depth ≤ 0 then s.slots else cleared
     depth := if s.depth ≤ 0 then s.depth else s.depth - 1
     depth_le := by have := s.depth_le; split <;> omega }, s.top, decide (s.depth ≤ 0))

inductive Use
  | push (address : UInt16)
  | pop

inductive Report
  | pushed (overflow : Bool)
  | popped (number : Nat) (underflow : Bool)
deriving DecidableEq, Repr

def use (s : CallStack) : Use → CallStack × Report
  | .push address => ((s.push address).1, .pushed (s.push address).2)
  | .pop => (s.pop.1, .popped s.pop.2.1.toNat s.pop.2.2)

/-- The stack behind a number of uses, and what each of them reported. -/
def useAll (s : CallStack) : List Use → CallStack × List Report
  | [] => (s, [])
  | u :: rest =>
    let (s', reports) := (s.use u).1.useAll rest
    (s', (s.use u).2 :: reports)

/-! ## On a list -/

/-- A list of up to sixteen numbers, the newest at its end. What an empty list gives is nothing, and
counts as zero. -/
def Use.onList (l : List Nat) : Use → List Nat × Report
  | push address =>
    if l.length < 16 then (l ++ [address.toNat % 0x1000], .pushed false) else (l, .pushed true)
  | pop => (l.dropLast, .popped (l.getLastD 0) l.isEmpty)

def onListAll (l : List Nat) : List Use → List Nat × List Report
  | [] => (l, [])
  | u :: rest =>
    let (l', reports) := onListAll (u.onList l).1 rest
    (l', (u.onList l).2 :: reports)

end Chip8.CallStack
