import Chip8.Supervisor

/-! What a host can ask of a supervised machine, as data. A list of requests is a conversation: each of
them is answered in turn, and an answer that is an error does not end it. -/

namespace Chip8

inductive Request
  | load (data : ProgramData) (source : Option String)
  | step
  | run (cycles : Int)
  | runFrame (cycles : Nat)
  | tick
  | setKey (key : Register) (down : Bool)
  | releaseKeys
  | halt
  | resume
  | consumeRedraw
  | reset

inductive Answer
  | done
  | word (w : UInt16)
  | count (cycles : Nat)
  | flag (b : Bool)
deriving DecidableEq, Repr

namespace Supervisor

def replying {α : Type} (f : α → Answer) (r : Supervisor × Except Error α) :
    Supervisor × Except Error Answer :=
  (r.1, r.2.map f)

def answer (s : Supervisor) : Request → Supervisor × Except Error Answer
  | .load data source => replying (fun _ => .done) (s.load data source)
  | .step => replying .word s.step
  | .run cycles => replying .count (s.run cycles)
  | .runFrame cycles => replying .count (s.runFrame cycles)
  | .tick => (s.tick, .ok .done)
  | .setKey key down => (s.setKey key down, .ok .done)
  | .releaseKeys => (s.releaseKeys, .ok .done)
  | .halt => replying (fun _ => .done) s.halt
  | .resume => (s.resume, .ok .done)
  | .consumeRedraw => (s.consumeRedraw.1, .ok (.flag s.consumeRedraw.2))
  | .reset => (s.reset, .ok .done)

/-- The supervisor at the end of a conversation. -/
def afterAll (s : Supervisor) (requests : List Request) : Supervisor :=
  requests.foldl (fun s r => (s.answer r).1) s

/-- The answers of a conversation, in order. -/
def answers (s : Supervisor) : List Request → List (Except Error Answer)
  | [] => []
  | r :: rest => (s.answer r).2 :: (s.answer r).1.answers rest

end Supervisor

end Chip8
