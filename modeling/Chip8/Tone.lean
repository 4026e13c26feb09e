import Chip8.Error

/-! The buzzer tone: one second of a square wave, as 16-bit samples. -/

namespace Chip8

structure Tone where
  samples : List Int
  channels : Nat

namespace Tone

/-- The samples of a period: high for the first half, rounded down, low for the rest. -/
def period (length : Nat) (high low : Int) : List Int :=
  List.replicate (length / 2) high ++ List.replicate (length - length / 2) low

/-- A level as a sample, cut towards zero and wrapped to 16 bits. -/
def sample (level : Float) : Int :=
  let n := (Text.Binary64.ofFloat (level * 32767)).truncate
  if -2147483648 ≤ n ∧ n < 2147483648 then Int.bmod n 65536 else 0

/-- As many periods as the frequency says, each cut down to whole samples. -/
def create (frequency sampleRate : Int) (volume : Float) (channels : Nat) : Except Error Tone :=
  if frequency = 0 then .error .divisionByZero
  else
    let length := (Int.fdiv sampleRate frequency).toNat
    if 0 < length ∧ frequency < 0 then .error .shapeMismatch
    else
      let one := period length (sample volume) (sample (-volume))
      .ok ⟨(List.replicate frequency.toNat one).flatten, channels⟩

end Tone

end Chip8
