import Chip8.Error
import Chip8.Machine.Cycle
import Chip8.Progress

/-! Runs of many frames without a supervisor. Faults are not raised here: a stack fault halts the
machine, which then stays as it is. -/

namespace Chip8.Machine

/-- The frames of a run need a number of frames and of cycles that is above zero. -/
def frames? (m : Machine) (count cycles : Int) : Except Error (Machine × List Screen) :=
  if count ≤ 0 ∨ cycles ≤ 0 then .error .frameCountRefused
  else .ok (m.frames cycles.toNat count.toNat)

/-- One frame as a round of a loop: the machine after it, and its screen. -/
def frameRound (cycles : Nat) (m : Machine) : Machine × Screen :=
  let m' := m.frame cycles
  (m', m'.screen)

/-- The same run with a bar that counts its frames. -/
def framesShown (m : Machine) (count cycles : Nat) : (Machine × List BarEvent) × List Screen :=
  (Progress.create count none none).scanWith id (fun m _ => frameRound cycles m) m
    ((List.range count).map Int.ofNat)

end Chip8.Machine
