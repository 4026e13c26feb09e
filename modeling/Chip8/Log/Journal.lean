import Chip8.Log.Logger

/-! The journal of a machine: a logger with a tally of faults by kind. -/

namespace Chip8

/-- How often each kind occurred, in the order of first occurrence. -/
abbrev Tally := List (String × Nat)

namespace Tally

def count : Tally → String → Nat
  | [], _ => 0
  | (k, n) :: rest, kind => if k = kind then n else count rest kind

def add (t : Tally) (kind : String) : Tally :=
  match t with
  | [] => [(kind, 1)]
  | (k, n) :: rest => if k = kind then (k, n + 1) :: rest else (k, n) :: add rest kind

def total (t : Tally) : Nat := (t.map Prod.snd).foldr (· + ·) 0

def sorted (t : Tally) : Tally :=
  t.mergeSort fun a b => decide (a.1 ≤ b.1)

theorem count_add (t : Tally) (kind k : String) :
    (t.add kind).count k = t.count k + if k = kind then 1 else 0 := by
  induction t with
  | nil => by_cases h : kind = k <;> simp [count, add, h, eq_comm]
  | cons e rest ih =>
    obtain ⟨a, n⟩ := e
    by_cases h : a = kind <;> by_cases hk : a = k <;> simp_all [count, add, eq_comm]

theorem sorted_perm (t : Tally) : t.sorted.Perm t :=
  List.mergeSort_perm _ _

theorem pairwise_sorted (t : Tally) : t.sorted.Pairwise fun a b => a.1 ≤ b.1 := by
  have htrans : ∀ a b c : String × Nat, decide (a.1 ≤ b.1) = true → decide (b.1 ≤ c.1) = true →
      decide (a.1 ≤ c.1) = true := by
    intro a b c hab hbc
    rw [decide_eq_true_eq] at hab hbc ⊢
    exact String.le_trans hab hbc
  have htotal : ∀ a b : String × Nat, (decide (a.1 ≤ b.1) || decide (b.1 ≤ a.1)) = true := by
    intro a b
    rw [Bool.or_eq_true, decide_eq_true_eq, decide_eq_true_eq]
    exact String.le_total _ _
  exact (List.pairwise_mergeSort htrans htotal t).imp of_decide_eq_true

end Tally

structure Journal where
  logger : Logger := {}
  faults : Tally := []

namespace Journal

def note (j : Journal) (level : Level) (notice : Notice) : Journal :=
  { j with logger := j.logger.note level notice }

def noteLoad (j : Journal) (size address : Int) (source : Option String) : Journal :=
  j.note .info (.loaded size address (source.filter (· ≠ "")))

def countFault (j : Journal) (kind : String) : Journal :=
  { j with faults := j.faults.add kind }

/-- A fault is counted whether or not the line about it is written. -/
def noteFault (j : Journal) (tag kind : String) (pc word : Int) : Journal :=
  { j.countFault kind with logger := j.logger.log tag (.faulted kind pc word) }

def noteMode (j : Journal) (old new : String) (pc : Int) : Journal :=
  j.note .debug (.modeChanged old new pc)

def noteSummary (j : Journal) (cycles : Int) (elapsed : Float) : Journal :=
  j.note .info (.summary cycles elapsed j.faults.sorted)

/-- Nothing has been summed up. -/
def Unsummed (j : Journal) : Prop :=
  ∀ e ∈ j.logger.entries.toList, e.record.notice.isSummary = false

end Journal

end Chip8
