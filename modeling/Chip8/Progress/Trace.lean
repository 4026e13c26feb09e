import Chip8.Progress

/-! The moments of a loop with a bar, in the order in which they come: what the bar is told, and between
that the rounds of the body. The events of the loop are the moments without the rounds. -/

namespace Chip8

inductive Moment
  | told (event : BarEvent)
  | round (i : Int)
deriving DecidableEq, Repr

namespace Moment

def event? : Moment → Option BarEvent
  | told event => some event
  | round _ => none

def round? : Moment → Option Int
  | told _ => none
  | round i => some i

/-- How far the bar has been moved. -/
def moved : List Moment → Int
  | [] => 0
  | .told (.moved k) :: rest => k + moved rest
  | _ :: rest => moved rest

/-- How many rounds are done. -/
def done : List Moment → Nat
  | [] => 0
  | .round _ :: rest => done rest + 1
  | .told _ :: rest => done rest

end Moment

namespace Progress

variable {σ α β : Type}

/-- The bar is told something before the body runs and after it has run. -/
def aroundTraced (p : Progress) (body : σ → α → σ × β) (i : Int) (s : σ × List Moment) (a : α) :
    (σ × List Moment) × β :=
  let begun := s.2 ++ (p.before i).map .told
  let r := body s.1 a
  ((r.1, begun ++ [.round i] ++ (p.after i).map .told), r.2)

/-- The loop with a bar, and its moments instead of its events. -/
def scanTraced (p : Progress) (round : α → Int) (body : σ → α → σ × β) (s : σ) (items : List α) :
    (σ × List Moment) × List β :=
  scan (fun s a => p.aroundTraced body (round a) s a) (s, []) items

/-- The moments of one round. -/
def moments (p : Progress) (i : Int) : List Moment :=
  (p.before i).map .told ++ .round i :: (p.after i).map .told

/-- A loop body that notes something about each of its items. -/
def noting {γ : Type} (note : α → List γ) (body : σ → α → σ × β) (s : σ × List γ) (a : α) :
    (σ × List γ) × β :=
  let r := body s.1 a
  ((r.1, s.2 ++ note a), r.2)

/-- Taking notes changes nothing, and the notes stand in the order of the items. -/
theorem scan_noting {γ : Type} (note : α → List γ) (body : σ → α → σ × β) (s : σ)
    (earlier : List γ) (items : List α) : scan (noting note body) (s, earlier) items =
      (((scan body s items).1, earlier ++ items.flatMap note), (scan body s items).2) := by
  induction items generalizing s earlier with
  | nil => simp only [scan, List.flatMap_nil, List.append_nil]
  | cons a rest ih => simp only [scan, noting, ih, List.flatMap_cons, List.append_assoc]

theorem scanWith_eq (p : Progress) (round : α → Int) (body : σ → α → σ × β) (s : σ)
    (items : List α) : p.scanWith round body s items =
      (((scan body s items).1, items.flatMap fun a => p.before (round a) ++ p.after (round a)),
        (scan body s items).2) := by
  have hbody : (fun s a => p.around body (round a) s a) =
      noting (fun a => p.before (round a) ++ p.after (round a)) body := by
    funext s a
    simp only [around, noting, List.append_assoc]
  rw [scanWith, hbody, scan_noting, List.nil_append]

theorem scanTraced_eq (p : Progress) (round : α → Int) (body : σ → α → σ × β) (s : σ)
    (items : List α) : p.scanTraced round body s items =
      (((scan body s items).1, items.flatMap fun a => p.moments (round a)),
        (scan body s items).2) := by
  have hbody : (fun s a => p.aroundTraced body (round a) s a) =
      noting (fun a => p.moments (round a)) body := by
    funext s a
    simp only [aroundTraced, noting, moments, List.append_assoc, List.cons_append, List.nil_append]
  rw [scanTraced, hbody, scan_noting, List.nil_append]

theorem events_moments (p : Progress) (i : Int) :
    (p.moments i).filterMap Moment.event? = p.before i ++ p.after i := by
  have htold : ∀ events : List BarEvent, (events.map Moment.told).filterMap Moment.event? = events := by
    intro events
    rw [List.filterMap_map]
    exact List.filterMap_some
  rw [moments, List.filterMap_append, List.filterMap_cons_none rfl, htold, htold]

/-- The events that a loop collects are its moments without the rounds. -/
theorem events_scanTraced (p : Progress) (round : α → Int) (body : σ → α → σ × β) (s : σ)
    (items : List α) : (p.scanWith round body s items).1.2 =
      (p.scanTraced round body s items).1.2.filterMap Moment.event? := by
  rw [scanWith_eq, scanTraced_eq, List.filterMap_flatMap]
  simp only [events_moments]

end Progress

end Chip8
