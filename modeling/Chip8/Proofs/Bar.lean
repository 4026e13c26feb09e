import Chip8.Machine.Frames
import Chip8.Progress.Trace

/-! A bar accounts for every round once. The loop goes on as it would without the bar; the bar is opened
before the first round, each move takes it to the rounds that are done by then, and it is closed behind
the last move, which takes it to the end.

* `Moment.InStep`: moves and rounds in step, a condition on the moments one by one;
* `moved_laps`, `inStep_laps`: where the bar stands behind a number of rounds, by induction on it;
* `moments_eq`: the moments of a whole loop;
* `bar_accounts`: all of it for every number of rounds and every chunk that is asked for. -/

namespace Chip8

namespace Moment

theorem moved_append (l l' : List Moment) : moved (l ++ l') = moved l + moved l' := by
  fun_induction moved l with
  | case1 => rw [List.nil_append, Int.zero_add]
  | case2 k rest ih => rw [List.cons_append, moved, ih, Int.add_assoc]
  | case3 a rest ha ih => rw [List.cons_append, moved.eq_3 _ _ ha, ih]

theorem done_append (l l' : List Moment) : done (l ++ l') = done l + done l' := by
  fun_induction done l with
  | case1 => rw [List.nil_append, Nat.zero_add]
  | case2 i rest ih => rw [List.cons_append, done, ih, Nat.add_right_comm]
  | case3 e rest ih => rw [List.cons_append, done, ih]

/-- A bar that stands at `bar` when `rounds` of `total` rounds are done: whenever it is moved, it comes to
the number of the rounds, by at least one and by no more than a chunk, and by less only at the end. -/
def InStep (chunk total : Int) : Int → Int → List Moment → Prop
  | _, _, [] => True
  | bar, rounds, .round _ :: rest => InStep chunk total bar (rounds + 1) rest
  | bar, rounds, .told (.moved k) :: rest =>
    (1 ≤ k ∧ k ≤ chunk ∧ (k = chunk ∨ rounds = total) ∧ bar + k = rounds) ∧
      InStep chunk total (bar + k) rounds rest
  | bar, rounds, .told (.opened _ _) :: rest => InStep chunk total bar rounds rest
  | bar, rounds, .told .closed :: rest => InStep chunk total bar rounds rest

theorem inStep_append (chunk total bar rounds : Int) (l l' : List Moment) :
    InStep chunk total bar rounds (l ++ l') ↔
      InStep chunk total bar rounds l ∧
        InStep chunk total (bar + moved l) (rounds + done l) l' := by
  induction l generalizing bar rounds with
  | nil => simp [InStep, moved, done]
  | cons a rest ih =>
    rw [List.cons_append]
    cases a with
    | round i =>
      have hr : rounds + 1 + (done rest : Int) = rounds + (done rest + 1 : Nat) := by omega
      rw [InStep, InStep, ih, hr]
      rfl
    | told e =>
      cases e with
      | opened n t => exact ih bar rounds
      | closed => exact ih bar rounds
      | moved k =>
        have hb : bar + k + moved rest = bar + (k + moved rest) := Int.add_assoc _ _ _
        rw [InStep, InStep, ih, hb, ← and_assoc]
        rfl

/-- What holds at one move, wherever it stands. -/
theorem InStep.at_move {chunk total bar rounds k : Int} {earlier later : List Moment}
    (h : InStep chunk total bar rounds (earlier ++ .told (.moved k) :: later)) :
    1 ≤ k ∧ k ≤ chunk ∧ (k = chunk ∨ rounds + done earlier = total) ∧
      bar + moved earlier + k = rounds + done earlier :=
  ((inStep_append ..).1 h).2.1

end Moment

namespace Progress

/-! ## Rounds and moves -/

/-- A round, and the move behind it if there is one. -/
def lap (p : Progress) (i : Int) : List Moment :=
  .round i ::
    if (i + 1) % p.chunk = 0 ∨ i + 1 = p.total then [.told (.moved (p.pending (i + 1)))] else []

def laps (p : Progress) (k : Nat) : List Moment :=
  (List.range k).flatMap fun i : Nat => p.lap i

/-- Where the bar stands when `k` rounds are done. -/
def shown (p : Progress) (k : Int) : Int :=
  if k = p.total then k else k / p.chunk * p.chunk

/-- A bar for `n` rounds with a chunk between one round and all of them. -/
structure Fits (p : Progress) (n : Nat) : Prop where
  total : p.total = n
  pos : 1 ≤ p.chunk
  le : p.chunk ≤ n

theorem fits_create {n : Nat} (hn : 1 ≤ n) (asked : Option Int) (title : Option String) :
    (create n asked title).Fits n := by
  refine ⟨rfl, ?_, ?_⟩
  · simp only [create, chunkOf]
    omega
  · simp only [create, chunkOf]
    omega

/-- The chunk is what is asked for, or a twentieth of the rounds if nothing or zero is asked for, kept
between one round and all of them. -/
theorem chunk_create (n : Nat) (asked : Option Int) (title : Option String) :
    (create n asked title).chunk = max 1 (min ((asked.filter (· ≠ 0)).getD (n / 20)) n) := by
  simp only [create, chunkOf]
  split
  case h_1 | h_2 => rfl
  case h_3 c hc =>
    have hasked : (some c).filter (· ≠ 0) = some c := by
      have hne : c ≠ 0 := hc
      simp [hne]
    rw [hasked, Option.getD_some]

theorem laps_succ (p : Progress) (k : Nat) : p.laps (k + 1) = p.laps k ++ p.lap k := by
  rw [laps, laps, List.range_succ, List.flatMap_append, List.flatMap_singleton]

theorem done_lap (p : Progress) (i : Int) : Moment.done (p.lap i) = 1 := by
  rw [lap]
  split <;> rfl

theorem done_laps (p : Progress) (k : Nat) : Moment.done (p.laps k) = k := by
  induction k with
  | zero => rfl
  | succ k ih => rw [laps_succ, Moment.done_append, ih, done_lap]

theorem shown_succ_of_move {p : Progress} {k : Int} (hm : (k + 1) % p.chunk = 0 ∨ k + 1 = p.total) :
    p.shown (k + 1) = k + 1 := by
  rw [shown]
  split
  · rfl
  · have hmod := hm.resolve_right ‹_›
    have hsum := Int.mul_ediv_add_emod (k + 1) p.chunk
    rw [hmod, Int.add_zero, Int.mul_comm] at hsum
    exact hsum

section Counting

variable {p : Progress} {n k : Nat} (h : p.Fits n) (hk : k < n)
include h hk

theorem shown_of_lt : p.shown k = k / p.chunk * p.chunk := by
  rw [shown, h.total, if_neg (by omega)]

/-- The rounds since the last move are fewer than a chunk. -/
theorem shown_le : p.shown k ≤ k ∧ (k : Int) < p.shown k + p.chunk := by
  have hpos : 0 < p.chunk := h.pos
  rw [shown_of_lt h hk]
  exact (Int.ediv_eq_iff_of_pos hpos).1 rfl

theorem pending_eq : p.pending (k + 1) = k + 1 - p.shown k := by
  rw [pending, Int.add_sub_cancel, shown_of_lt h hk]

/-- Between two moves the bar stays where it is. -/
theorem shown_succ_of_between (hm : ¬ ((k + 1 : Int) % p.chunk = 0 ∨ (k + 1 : Int) = p.total)) :
    p.shown (k + 1) = p.shown k := by
  obtain ⟨hmod, htotal⟩ := not_or.1 hm
  have hpos : 0 < p.chunk := h.pos
  obtain ⟨hle, hlt⟩ := shown_le h hk
  have hshown := shown_of_lt h hk
  have hnext : (k + 1 : Int) ≠ p.shown k + p.chunk := by
    intro he
    have hmul : (k + 1 : Int) = (k / p.chunk + 1) * p.chunk := by
      rw [he, hshown, Int.add_mul, Int.one_mul]
    exact hmod (by rw [hmul, Int.mul_emod_left])
  have hdiv : (k + 1 : Int) / p.chunk = k / p.chunk := by
    rw [Int.ediv_eq_iff_of_pos hpos, ← hshown]
    omega
  rw [shown, if_neg htotal, hdiv, hshown]

theorem moved_lap : p.shown k + Moment.moved (p.lap k) = p.shown (k + 1) := by
  rw [lap]
  split
  case isTrue hm =>
    rw [shown_succ_of_move hm]
    show p.shown k + (p.pending (k + 1) + 0) = _
    rw [pending_eq h hk]
    omega
  case isFalse hm =>
    rw [shown_succ_of_between h hk hm]
    exact Int.add_zero _

/-- Two multiples of the chunk that are no more than a chunk apart are a chunk apart. -/
theorem pending_of_emod (hm : (k + 1 : Int) % p.chunk = 0) : p.pending (k + 1) = p.chunk := by
  obtain ⟨hle, hlt⟩ := shown_le h hk
  have hmod : p.pending (k + 1) % p.chunk = 0 := by
    rw [pending, Int.sub_mul_emod_self_right, hm]
  rw [pending_eq h hk] at hmod ⊢
  by_cases hfull : (k + 1 : Int) - p.shown k < p.chunk
  · rw [Int.emod_eq_of_lt (by omega) hfull] at hmod
    omega
  · omega

theorem inStep_lap : Moment.InStep p.chunk p.total (p.shown k) k (p.lap k) := by
  rw [lap]
  split
  case isTrue hm =>
    obtain ⟨hle, hlt⟩ := shown_le h hk
    have hfull : p.pending (k + 1) = p.chunk ∨ (k : Int) + 1 = p.total :=
      hm.imp_left (pending_of_emod h hk)
    have hpending := pending_eq h hk
    exact ⟨⟨by omega, by omega, hfull, by omega⟩, trivial⟩
  case isFalse => trivial

end Counting

variable {p : Progress} {n : Nat}

theorem moved_laps (h : p.Fits n) {k : Nat} (hk : k ≤ n) : Moment.moved (p.laps k) = p.shown k := by
  induction k with
  | zero =>
    show 0 = p.shown 0
    rw [shown, Int.zero_ediv, Int.zero_mul, ite_self]
  | succ k ih =>
    rw [laps_succ, Moment.moved_append, ih (by omega)]
    exact moved_lap h hk

/-- Round by round the moves are in step, because each lap starts where the laps before it have left the
bar. -/
theorem inStep_laps (h : p.Fits n) {k : Nat} (hk : k ≤ n) :
    Moment.InStep p.chunk p.total 0 0 (p.laps k) := by
  induction k with
  | zero => trivial
  | succ k ih =>
    rw [laps_succ, Moment.inStep_append, moved_laps h (by omega), done_laps, Int.zero_add,
      Int.zero_add]
    exact ⟨ih (by omega), inStep_lap h hk⟩

/-! ## Whole loops -/

theorem mem_lap {i : Int} {a : Moment} (ha : a ∈ p.lap i) :
    a = .round i ∨ ∃ k, a = .told (.moved k) := by
  rw [lap] at ha
  split at ha
  · rcases List.mem_cons.1 ha with rfl | hm
    · exact .inl rfl
    · exact .inr ⟨_, List.mem_singleton.1 hm⟩
  · exact .inl (List.mem_singleton.1 ha)

theorem mem_laps {k : Nat} {a : Moment} (ha : a ∈ p.laps k) :
    (∃ i, a = .round i) ∨ ∃ k, a = .told (.moved k) := by
  obtain ⟨i, -, hi⟩ := List.mem_flatMap.1 ha
  rcases mem_lap hi with rfl | hm
  · exact .inl ⟨_, rfl⟩
  · exact .inr hm

theorem moments_eq_lap (h : p.Fits n) (k : Nat) : p.moments k =
    (if k = 0 then [.told (.opened p.total p.title)] else []) ++
      (p.lap k ++ if k + 1 = n then [.told .closed] else []) := by
  have hfirst : (k : Int) = 0 ↔ k = 0 := by omega
  have hlast : (k : Int) + 1 = n ↔ k + 1 = n := by omega
  simp only [moments, before, after, lap, h.total, hfirst, hlast, List.map_append,
    apply_ite (List.map Moment.told), List.map_cons, List.map_nil, List.cons_append]

/-- The bar is opened before the first lap and closed behind the last one. -/
theorem moments_upTo (h : p.Fits n) {k : Nat} (hpos : 1 ≤ k) (hk : k ≤ n) :
    (List.range k).flatMap (fun i : Nat => p.moments i) =
      .told (.opened p.total p.title) :: (p.laps k ++ if k = n then [.told .closed] else []) := by
  induction k with
  | zero => omega
  | succ k ih =>
    rw [List.range_succ, List.flatMap_append, List.flatMap_singleton, moments_eq_lap h, laps_succ]
    by_cases hzero : k = 0
    · subst hzero
      rfl
    · rw [ih (by omega) (by omega), if_neg hzero, if_neg (by omega)]
      simp only [List.append_nil, List.nil_append, List.cons_append, List.append_assoc]

theorem moments_eq (h : p.Fits n) (hn : 1 ≤ n) :
    (List.range n).flatMap (fun i : Nat => p.moments i) =
      .told (.opened p.total p.title) :: (p.laps n ++ [.told .closed]) := by
  rw [moments_upTo h hn (Nat.le_refl n), if_pos rfl]

/-- The moments of a loop account for each of its `n` rounds once, in moves of `rate` rounds and a last one
of what is left. -/
structure Counts (p : Progress) (rate : Int) (n : Nat) (trace : List Moment) : Prop where
  rounds : trace.filterMap Moment.round? = (List.range n).map Int.ofNat
  opened : ∃ later, trace = .told (.opened n p.title) :: later ∧
    ∀ total title, .told (.opened total title) ∉ later
  closed : ∃ earlier, trace = earlier ++ [.told .closed] ∧ .told .closed ∉ earlier
  moves : ∀ earlier k later, trace = earlier ++ .told (.moved k) :: later →
    1 ≤ k ∧ k ≤ rate ∧ (k = rate ∨ Moment.done earlier = n) ∧
      Moment.moved earlier + k = Moment.done earlier
  whole : Moment.moved trace = n

theorem rounds_laps (k : Nat) :
    (p.laps k).filterMap Moment.round? = (List.range k).map Int.ofNat := by
  have hlap : ∀ i, (p.lap i).filterMap Moment.round? = [i] := by
    intro i
    rw [lap]
    split <;> rfl
  induction k with
  | zero => rfl
  | succ k ih =>
    rw [laps_succ, List.filterMap_append, ih, hlap, List.range_succ, List.map_append]
    rfl

theorem not_mem_laps {e : BarEvent} (he : ∀ k, e ≠ .moved k) (k : Nat) : .told e ∉ p.laps k := by
  intro hm
  rcases mem_laps hm with ⟨i, hi⟩ | ⟨j, hj⟩
  · cases hi
  · exact he j (Moment.told.inj hj)

theorem counts_moments (h : p.Fits n) (hn : 1 ≤ n) :
    p.Counts p.chunk n ((List.range n).flatMap fun i : Nat => p.moments i) := by
  have hopened : ∀ total title, ∀ k, BarEvent.opened total title ≠ .moved k := by
    intro total title k hk
    cases hk
  have hclosed : ∀ k, BarEvent.closed ≠ .moved k := by
    intro k hk
    cases hk
  rw [moments_eq h hn, h.total]
  constructor
  case rounds =>
    rw [List.filterMap_cons_none rfl, List.filterMap_append, rounds_laps]
    exact List.append_nil _
  case opened =>
    refine ⟨_, rfl, fun total title hm => ?_⟩
    rcases List.mem_append.1 hm with hl | hc
    · exact not_mem_laps (hopened total title) n hl
    · cases List.mem_singleton.1 hc
  case closed =>
    refine ⟨_ :: p.laps n, rfl, fun hm => ?_⟩
    rcases List.mem_cons.1 hm with ho | hl
    · cases ho
    · exact not_mem_laps hclosed n hl
  case moves =>
    intro earlier k later he
    have hstep : Moment.InStep p.chunk n 0 0
        (.told (.opened n p.title) :: (p.laps n ++ [.told .closed])) :=
      (Moment.inStep_append ..).2 ⟨h.total ▸ inStep_laps h (Nat.le_refl n), trivial⟩
    rw [he] at hstep
    have hmove := hstep.at_move
    omega
  case whole =>
    have hend : p.shown n = n := by rw [shown, if_pos h.total.symm]
    show Moment.moved (p.laps n ++ [.told .closed]) = n
    rw [Moment.moved_append, moved_laps h (Nat.le_refl n), hend]
    exact Int.add_zero _

/-- An open bar hears of every move, and of its end. -/
theorem whileOpen_of_moved {events : List BarEvent} (h : ∀ e ∈ events, ∃ k, e = .moved k) :
    whileOpen true (events ++ [.closed]) = events ++ [.closed] := by
  induction events with
  | nil => rfl
  | cons e rest ih =>
    obtain ⟨k, rfl⟩ := h e List.mem_cons_self
    exact congrArg _ (ih fun e he => h e (List.mem_cons_of_mem _ he))

theorem whileOpen_events (h : p.Fits n) (hn : 1 ≤ n) :
    whileOpen false (((List.range n).flatMap fun i : Nat => p.moments i).filterMap Moment.event?) =
      ((List.range n).flatMap fun i : Nat => p.moments i).filterMap Moment.event? := by
  have hmoved : ∀ e ∈ (p.laps n).filterMap Moment.event?, ∃ k, e = .moved k := by
    intro e he
    obtain ⟨a, ha, hea⟩ := List.mem_filterMap.1 he
    rcases mem_laps ha with ⟨i, rfl⟩ | ⟨k, rfl⟩
    · cases hea
    · exact ⟨k, (Option.some.inj hea).symm⟩
  rw [moments_eq h hn]
  simp only [List.filterMap_cons, List.filterMap_append, List.filterMap_nil, Moment.event?]
  exact congrArg _ (whileOpen_of_moved hmoved)

variable {σ α β : Type}

/-- A loop of `n` rounds, and the same loop with a bar that moves every `rate` rounds. -/
structure Accompanied (p : Progress) (rate : Int) (n : Nat) (round : α → Int) (body : σ → α → σ × β) (s : σ)
    (items : List α) : Prop where
  same : ((p.scanWith round body s items).1.1, (p.scanWith round body s items).2) = scan body s items
  events : (p.scanWith round body s items).1.2 =
    (p.scanTraced round body s items).1.2.filterMap Moment.event?
  heard : whileOpen false (p.scanWith round body s items).1.2 = (p.scanWith round body s items).1.2
  counts : p.Counts rate n (p.scanTraced round body s items).1.2

theorem accompanied_of_fits (h : p.Fits n) (hn : 1 ≤ n) {round : α → Int} {items : List α}
    (hitems : items.map round = (List.range n).map Int.ofNat) (body : σ → α → σ × β) (s : σ) :
    p.Accompanied p.chunk n round body s items := by
  have htrace : (p.scanTraced round body s items).1.2 =
      (List.range n).flatMap fun i : Nat => p.moments i := by
    rw [scanTraced_eq]
    show items.flatMap (fun a => p.moments (round a)) = _
    rw [← List.flatMap_map round p.moments, hitems, List.flatMap_map]
    rfl
  refine ⟨?_, p.events_scanTraced round body s items, ?_, ?_⟩
  · rw [scanWith_eq]
  · rw [events_scanTraced, htrace]
    exact whileOpen_events h hn
  · rw [htrace]
    exact counts_moments h hn

end Progress

namespace Machine

theorem scan_frameRound (m : Machine) (cycles : Nat) (items : List Int) :
    Progress.scan (fun m _ => frameRound cycles m) m items = m.frames cycles items.length := by
  induction items generalizing m with
  | nil => rfl
  | cons a rest ih =>
    rw [Progress.scan, ih]
    rfl

theorem framesShown_eq (m : Machine) (count cycles : Nat) :
    ((m.framesShown count cycles).1.1, (m.framesShown count cycles).2) = m.frames cycles count := by
  rw [framesShown, Progress.scanWith_eq, scan_frameRound, List.length_map, List.length_range]

end Machine

/-- For every number of rounds and whatever chunk is asked for, the loop with a bar is the loop without,
and the bar accounts for every round once. It moves by the chunk that is asked for, or by a twentieth of
the rounds if none or zero is, but never by less than one round or more than all of them. Frames come out
the same whether a bar shows them or not. -/
theorem bar_accounts {σ α β : Type} {n : Nat} (hn : 1 ≤ n) (asked : Option Int)
    (title : Option String) {round : α → Int} {items : List α}
    (hitems : items.map round = (List.range n).map Int.ofNat) (body : σ → α → σ × β) (s : σ) :
    (Progress.create n asked title).Accompanied
        (max 1 (min ((asked.filter (· ≠ 0)).getD (n / 20)) n)) n round body s items ∧
      ∀ (m : Machine) (count cycles : Int), 0 < count → 0 < cycles → m.frames? count cycles =
        .ok ((m.framesShown count.toNat cycles.toNat).1.1,
          (m.framesShown count.toNat cycles.toNat).2) := by
  have hfits := Progress.fits_create hn asked title
  rw [← Progress.chunk_create n asked title]
  refine ⟨Progress.accompanied_of_fits hfits hn hitems body s, ?_⟩
  intro m count cycles hcount hcycles
  rw [Machine.frames?, if_neg (by omega), Machine.framesShown_eq]

/-- Three rounds that add up their numbers, with a bar that moves every two rounds. -/
theorem bar_accounts_three :
    let p := Progress.create 3 (some 2) (some "sum")
    let body := fun (sum i : Int) => (sum + i, sum)
    let m := Machine.initial (Random.Key.ofSeed 0)
    p.Accompanied 2 3 id body 0 [0, 1, 2] ∧
      (p.scanWith id body 0 [0, 1, 2]).1 = (3, [.opened 3 "sum", .moved 2, .moved 1, .closed]) ∧
      m.frames? 1 1 = .ok ((m.framesShown 1 1).1.1, (m.framesShown 1 1).2) := by
  have hitems : ([0, 1, 2] : List Int).map id = (List.range 3).map Int.ofNat := rfl
  obtain ⟨haccompanied, hframes⟩ := bar_accounts (n := 3) (by decide) (some 2) (some "sum") hitems
    (fun (sum i : Int) => (sum + i, sum)) 0
  exact ⟨haccompanied, rfl, hframes _ 1 1 (by decide) (by decide)⟩

end Chip8
