import Chip8.Argument
import Chip8.Log.Logger

/-! A logger in use: records are handed to it, its threshold is changed, and time goes by. A threshold
that is no level is refused. -/

namespace Chip8.Logger

inductive Use
  | log (tag : String) (notice : Notice)
  | setLevel (level : Value)
  | wait (now : Float)

def use (l : Logger) : Use → Logger × Except Error Unit
  | .log tag notice => (l.log tag notice, .ok ())
  | .setLevel level =>
    match Argument.level level with
    | .ok threshold => ({ l with threshold }, .ok ())
    | .error e => (l, .error e)
  | .wait now => ({ l with now }, .ok ())

/-- The logger behind a number of uses, those that failed included. -/
def useAll (l : Logger) (uses : List Use) : Logger :=
  uses.foldl (fun l u => (l.use u).1) l

namespace Use

/-- The threshold that is set, if it is a level. -/
def level? : Use → Option Level
  | setLevel (.text s) => Level.ofText? s
  | _ => none

def time? : Use → Option Float
  | wait now => some now
  | _ => none

end Use

/-! ## What is to be written -/

/-- The threshold that was set last, the first one as long as none was. -/
def thresholdBehind (l : Logger) (uses : List Use) : Level :=
  (uses.filterMap Use.level?).getLast?.getD l.threshold

def timeBehind (l : Logger) (uses : List Use) : Float :=
  (uses.filterMap Use.time?).getLast?.getD l.now

/-- The entry that is to be made of the use at position `i`: one for a record whose level reaches the
threshold that was set last before it. -/
def entryAt (l : Logger) (uses : List Use) (i : Nat) : Option Entry :=
  match uses[i]? with
  | some (.log tag notice) =>
    if (l.thresholdBehind (uses.take i)).rank ≤ (Level.ofTag tag).rank then
      some ⟨l.timeBehind (uses.take i), ⟨tag, notice⟩⟩
    else none
  | _ => none

def written (l : Logger) (uses : List Use) : List Entry :=
  (List.range uses.length).filterMap (l.entryAt uses)

end Chip8.Logger
