import Chip8.Proofs.History

/-! Tallies and notices for a reader. A tally has an entry for each kind that it counted. Notices, read
from the front, tell the mode that the machine is in behind each of them; `History.Told` says that they
tell of a history what there is to tell, and it is kept by one deed, one reset and one remark at a time. -/

namespace Chip8

/-! ## Tallies -/

namespace Tally

/-- Each kind has one entry, and none without an occurrence. -/
structure Proper (t : Tally) : Prop where
  nodup : (t.map Prod.fst).Nodup
  pos : ∀ e ∈ t, 0 < e.2

theorem mem_kinds_add (t : Tally) (kind k : String) :
    k ∈ (t.add kind).map Prod.fst ↔ k ∈ t.map Prod.fst ∨ k = kind := by
  induction t with
  | nil => simp [add]
  | cons e rest ih =>
    by_cases h : e.1 = kind
    · subst h
      simp only [add, ↓reduceIte, List.map_cons, List.mem_cons]
      exact ⟨.inl, fun hk => hk.elim id .inl⟩
    · simp only [add, h, ↓reduceIte, List.map_cons, List.mem_cons, ih]
      exact or_assoc.symm

theorem Proper.add {t : Tally} (ht : t.Proper) (kind : String) : (t.add kind).Proper := by
  induction t with
  | nil => exact ⟨by simp [Tally.add], by simp [Tally.add]⟩
  | cons e rest ih =>
    obtain ⟨hn, hp⟩ := ht
    rw [List.map_cons, List.nodup_cons] at hn
    rw [List.forall_mem_cons] at hp
    by_cases h : e.1 = kind
    · simp only [Tally.add, h, ↓reduceIte]
      refine ⟨?_, List.forall_mem_cons.2 ⟨Nat.succ_pos _, hp.2⟩⟩
      rw [List.map_cons, List.nodup_cons, ← h]
      exact hn
    · obtain ⟨hn', hp'⟩ := ih ⟨hn.2, hp.2⟩
      simp only [Tally.add, h, ↓reduceIte]
      refine ⟨?_, List.forall_mem_cons.2 ⟨hp.1, hp'⟩⟩
      rw [List.map_cons, List.nodup_cons, mem_kinds_add]
      exact ⟨not_or.2 ⟨hn.1, h⟩, hn'⟩

theorem count_of_not_mem {t : Tally} {kind : String} (h : kind ∉ t.map Prod.fst) :
    t.count kind = 0 := by
  induction t with
  | nil => rfl
  | cons e rest ih =>
    rw [List.map_cons, List.mem_cons, not_or] at h
    rw [count, if_neg (Ne.symm h.1), ih h.2]

/-- The entries of a tally are its counts above zero. -/
theorem Proper.mem_iff {t : Tally} (ht : t.Proper) (kind : String) (n : Nat) :
    (kind, n) ∈ t ↔ t.count kind = n ∧ 0 < n := by
  induction t with
  | nil => simp [count]; omega
  | cons e rest ih =>
    obtain ⟨hn, hp⟩ := ht
    rw [List.map_cons, List.nodup_cons] at hn
    rw [List.forall_mem_cons] at hp
    have hrest := ih ⟨hn.2, hp.2⟩
    obtain ⟨k, c⟩ := e
    by_cases h : k = kind
    · subst h
      have hz : Tally.count rest k = 0 := count_of_not_mem hn.1
      rw [List.mem_cons, hrest, hz, count, if_pos rfl, Prod.mk.injEq]
      have hc := hp.1
      simp only [true_and] at hc ⊢
      omega
    · rw [List.mem_cons, hrest, count, if_neg h, Prod.mk.injEq]
      simp only [Ne.symm h, false_and, false_or]

end Tally

/-! ## Reading the notices -/

namespace Notice

/-- The name of the mode behind a notice, for a reader who knows the one before it. -/
def modeAfter (mode : Option String) : Notice → Option String
  | machineReset => some "RUNNING"
  | modeChanged _ new _ => some new
  | _ => mode

/-- The name of the mode behind all notices so far. -/
def modeRead (ns : List Notice) : Option String :=
  ns.foldl modeAfter none

/-- Each change of mode starts from the mode that the notices before it lead to. -/
def Chained (ns : List Notice) : Prop :=
  ∀ xs old new pc ys, ns = xs ++ modeChanged old new pc :: ys → modeRead xs = some old

/-- The kind, the address and the word of a fault that is reported. -/
def report? : Notice → Option (String × Int × Int)
  | faulted kind pc word => some (kind, pc, word)
  | _ => none

/-- The names of the modes and the address of a change that is reported. -/
def change? : Notice → Option (Option String × Option String × Int)
  | modeChanged old new pc => some (some old, some new, pc)
  | _ => none

/-- Reports a fault of a kind. -/
def isFault (kind : String) (n : Notice) : Bool :=
  n.report?.map Prod.fst = some kind

/-- Says nothing about faults and modes. -/
def Quiet : Notice → Prop
  | machineReset | faulted .. | modeChanged .. => False
  | _ => True

theorem modeRead_concat (ns : List Notice) (n : Notice) :
    modeRead (ns ++ [n]) = n.modeAfter (modeRead ns) := by
  rw [modeRead, List.foldl_append]
  rfl

theorem chained_nil : Chained [] := by
  intro xs old new pc ys h
  cases xs <;> cases h

theorem Chained.concat {ns : List Notice} (h : Chained ns) {n : Notice}
    (hn : ∀ old new pc, n = modeChanged old new pc → modeRead ns = some old) :
    Chained (ns ++ [n]) := by
  intro xs old new pc ys hs
  rcases List.eq_nil_or_concat ys with rfl | ⟨zs, z, rfl⟩
  · obtain ⟨rfl, he⟩ := List.append_inj' hs rfl
    exact hn old new pc (List.singleton_inj.1 he)
  · have hs' : ns ++ [n] = (xs ++ modeChanged old new pc :: zs) ++ [z] := by
      rw [hs, List.append_assoc, List.cons_append, List.concat_eq_append]
    exact h xs old new pc zs (List.append_inj' hs' rfl).1

end Notice

namespace Deed

/-- The fault of the instruction that was executed, if one was. -/
def fault? : Deed → Option Fault
  | cycle m => m.cycleFault?
  | _ => none

/-- The kind of the fault, and the instruction that it is about. -/
def report? (d : Deed) : Option (String × Int × Int) :=
  d.fault?.map fun f => (f.name, (d.before.pc.toNat : Int), (d.before.fetch.toNat : Int))

/-- The names of the modes before and after, where they are two, and the address. -/
def change? (d : Deed) : Option (Option String × Option String × Int) :=
  if d.after.mode = d.before.mode then none
  else some (d.before.mode.name?, d.after.mode.name?, (d.before.pc.toNat : Int))

def changeNotices (d : Deed) : List Notice :=
  match d.change? with
  | some (some old, some new, pc) => [.modeChanged old new pc]
  | _ => []

def faultNotices (d : Deed) : List Notice :=
  match d.report? with
  | some (kind, pc, word) => [.faulted kind pc word]
  | none => []

/-- What is to be said about a deed. -/
def notices (d : Deed) : List Notice :=
  d.changeNotices ++ d.faultNotices

/-- Both modes have a name. -/
def Named (d : Deed) : Prop :=
  (∃ old, d.before.mode.name? = some old) ∧ ∃ new, d.after.mode.name? = some new

theorem change?_of_same {d : Deed} (h : d.after.mode = d.before.mode) : d.change? = none :=
  if_pos h

theorem change?_of_ne {d : Deed} (h : d.after.mode ≠ d.before.mode) :
    d.change? = some (d.before.mode.name?, d.after.mode.name?, (d.before.pc.toNat : Int)) :=
  if_neg h

theorem report?_notices (d : Deed) : d.notices.filterMap Notice.report? = d.report?.toList := by
  have hc : d.changeNotices.filterMap Notice.report? = [] := by
    unfold changeNotices
    split <;> rfl
  have hf : d.faultNotices.filterMap Notice.report? = d.report?.toList := by
    unfold faultNotices
    split <;> rename_i h <;> rw [h] <;> rfl
  rw [notices, List.filterMap_append, hc, hf, List.nil_append]

theorem change?_notices {d : Deed} (h : d.Named) :
    d.notices.filterMap Notice.change? = d.change?.toList := by
  obtain ⟨⟨old, hold⟩, new, hnew⟩ := h
  have hf : d.faultNotices.filterMap Notice.change? = [] := by
    unfold faultNotices
    split <;> rfl
  rw [notices, List.filterMap_append, hf, List.append_nil, changeNotices]
  by_cases hm : d.after.mode = d.before.mode
  · rw [change?_of_same hm]
    rfl
  · rw [change?_of_ne hm, hold, hnew]
    rfl

end Deed

/-! ## Notices against a history -/

namespace History

theorem all_add (h : History) (d : Deed) : (h.add d).all = h.all ++ [d] :=
  (List.append_assoc h.past h.recent [d]).symm

theorem all_reset (h : History) : h.reset.all = h.all :=
  List.append_nil h.all

/-- The notices tell the faults and the changes of mode that there were, and the mode that there is. -/
structure Told (h : History) (ns : List Notice) (mode : Option String) : Prop where
  reports : ns.filterMap Notice.report? = h.all.filterMap Deed.report?
  changes : ns.filterMap Notice.change? = h.all.filterMap Deed.change?
  chained : Notice.Chained ns
  mode : Notice.modeRead ns = mode

variable {h : History} {ns : List Notice} {mode : Option String}

theorem Told.quiet (ht : h.Told ns mode) {n : Notice} (hn : n.Quiet) :
    h.Told (ns ++ [n]) mode := by
  obtain ⟨hr, hc, hch, hm⟩ := ht
  refine ⟨?_, ?_, hch.concat ?_, ?_⟩
  · rw [List.filterMap_append, hr]
    cases n <;> first | exact hn.elim | exact List.append_nil _
  · rw [List.filterMap_append, hc]
    cases n <;> first | exact hn.elim | exact List.append_nil _
  · rintro old new pc rfl
    exact hn.elim
  · rw [Notice.modeRead_concat, hm]
    cases n <;> first | exact hn.elim | rfl

theorem Told.reset (ht : h.Told ns mode) : h.reset.Told (ns ++ [.machineReset]) (some "RUNNING") := by
  obtain ⟨hr, hc, hch, hm⟩ := ht
  refine ⟨?_, ?_, hch.concat ?_, ?_⟩
  · rw [List.filterMap_append, hr, all_reset]
    exact List.append_nil _
  · rw [List.filterMap_append, hc, all_reset]
    exact List.append_nil _
  · rintro old new pc ⟨⟩
  · rw [Notice.modeRead_concat]
    rfl

/-- A change of mode first, then a fault: the chain goes through both. -/
theorem Told.chained_notices {d : Deed} (ht : h.Told ns d.before.mode.name?) (hd : d.Named) :
    Notice.Chained (ns ++ d.notices) ∧ Notice.modeRead (ns ++ d.notices) = d.after.mode.name? := by
  obtain ⟨⟨old, hold⟩, new, hnew⟩ := hd
  have hc : Notice.Chained (ns ++ d.changeNotices) ∧
      Notice.modeRead (ns ++ d.changeNotices) = d.after.mode.name? := by
    by_cases hm : d.after.mode = d.before.mode
    · rw [Deed.changeNotices, Deed.change?_of_same hm, List.append_nil, hm]
      exact ⟨ht.chained, ht.mode⟩
    · rw [Deed.changeNotices, Deed.change?_of_ne hm, hold, hnew]
      refine ⟨ht.chained.concat ?_, Notice.modeRead_concat _ _⟩
      rintro old' new' pc ⟨⟩
      rw [ht.mode, hold]
  rw [Deed.notices, ← List.append_assoc, Deed.faultNotices]
  split
  · refine ⟨hc.1.concat ?_, ?_⟩
    · rintro old' new' pc' ⟨⟩
    · rw [Notice.modeRead_concat, hc.2]
      rfl
  · rwa [List.append_nil]

theorem Told.deed {d : Deed} (ht : h.Told ns d.before.mode.name?) (hd : d.Named) :
    (h.add d).Told (ns ++ d.notices) d.after.mode.name? where
  reports := by
    rw [List.filterMap_append, ht.reports, d.report?_notices, all_add, List.filterMap_append]
    cases hr : d.report? <;> simp [hr]
  changes := by
    rw [List.filterMap_append, ht.changes, Deed.change?_notices hd, all_add, List.filterMap_append]
    cases hc : d.change? <;> simp [hc]
  chained := (ht.chained_notices hd).1
  mode := (ht.chained_notices hd).2

end History

end Chip8
