import Chip8.Text.Digits

/-! Progress of a counted loop, shown on a bar. The bar moves in chunks of a fixed size and once more at
the end, where it is closed. -/

namespace Chip8

/-- What the bar was told to do. -/
inductive BarEvent
  | opened (total : Int) (title : String)
  | moved (rounds : Int)
  | closed
deriving DecidableEq, Repr

/-- A bar for `total` rounds that moves every `chunk` rounds. -/
structure Progress where
  total : Int
  title : String
  chunk : Int

namespace Progress

/-- A twentieth of the whole unless a chunk is asked for; never more than the whole nor less than 1. -/
def chunkOf (total : Int) (asked : Option Int) : Int :=
  let wanted := match asked with
    | none | some 0 => total / 20
    | some c => c
  max 1 (min wanted total)

def defaultTitle (total : Int) : String :=
  "Running " ++ Text.grouped total ++ " frames"

/-- An empty title is as good as none. -/
def create (total : Int) (asked : Option Int) (title : Option String) : Progress where
  total := total
  title := (title.filter (· ≠ "")).getD (defaultTitle total)
  chunk := chunkOf total asked

/-- Before round `i`: the first round opens the bar. -/
def before (p : Progress) (i : Int) : List BarEvent :=
  if i = 0 then [.opened p.total p.title] else []

/-- How far `done` rounds are beyond the last full chunk before them. -/
def pending (p : Progress) (done : Int) : Int :=
  done - (done - 1) / p.chunk * p.chunk

/-- After round `i`. -/
def after (p : Progress) (i : Int) : List BarEvent :=
  let done := i + 1
  (if done % p.chunk = 0 ∨ done = p.total then [.moved (p.pending done)] else []) ++
    if done = p.total then [.closed] else []

variable {σ α β : Type}

/-- A loop body with the bar around it; the events are collected beside the state. -/
def around (p : Progress) (body : σ → α → σ × β) (i : Int) (s : σ × List BarEvent) (a : α) :
    (σ × List BarEvent) × β :=
  let r := body s.1 a
  ((r.1, s.2 ++ p.before i ++ p.after i), r.2)

/-- A loop over a list: the last state and the output of each round. -/
def scan (body : σ → α → σ × β) (s : σ) : List α → σ × List β
  | [] => (s, [])
  | a :: rest =>
    let r := body s a
    let t := scan body r.1 rest
    (t.1, r.2 :: t.2)

/-- The same loop with a bar; each item says which round it belongs to. -/
def scanWith (p : Progress) (round : α → Int) (body : σ → α → σ × β) (s : σ) (items : List α) :
    (σ × List BarEvent) × List β :=
  scan (fun s a => p.around body (round a) s a) (s, []) items

/-- What is left of a list of events once a bar that is not open is told nothing. -/
def whileOpen : Bool → List BarEvent → List BarEvent
  | _, [] => []
  | _, .opened n t :: rest => .opened n t :: whileOpen true rest
  | true, .moved k :: rest => .moved k :: whileOpen true rest
  | true, .closed :: rest => .closed :: whileOpen false rest
  | false, _ :: rest => whileOpen false rest

end Progress

end Chip8
