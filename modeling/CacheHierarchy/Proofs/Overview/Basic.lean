import CacheHierarchy.Proofs.Machine.OutstandingTable
import CacheHierarchy.Proofs.Overview.Plan
import Mathlib.Data.Multiset.AddSub
import Mathlib.Data.Multiset.Filter
import Mathlib.Logic.Relation

/-!
# Overviews

An overview is what a hierarchy looks like with the order of its queues forgotten: which requests
are where, which lines are resident and dirty, what is expected, outstanding, counted and done, and
the journal. It can be taken in the middle of an action as well. What the action has left to do is
then part of it:

* a `Debt` is a dirty line that was counted as given up and whose write-back is not made yet;
* a `Repair` is under way after the base has displaced a line, until no cache above holds the line
  and no write-back or fill of it is on its way.
-/

namespace CacheHierarchy

/-- A write-back that is counted and still to be made. -/
structure Debt where
  /-- The cache that it leaves through; none if it goes to memory at once. -/
  via : Option Nat
  addr : Nat

def Debt.spot (d : Debt) : Spot := d.via.elim .memory .writeBacks

theorem Debt.spot_ne_fills (d : Debt) (i : Nat) : d.spot ≠ .fills i := by
  unfold spot
  cases d.via <;> exact fun h => Spot.noConfusion h

theorem Debt.spot_ne_finished (d : Debt) : d.spot ≠ .finished := by
  unfold spot
  cases d.via <;> exact fun h => Spot.noConfusion h

/-- What follows the eviction of a line by the base. -/
structure Repair where
  line : Nat
  /-- No write-back of the line is on its way to the base any more. -/
  recalled : Bool := false
  /-- The caches above that have given the line up. -/
  withdrawn : List Nat := []

/-- What a hierarchy looks like with the order of its queues forgotten. -/
structure Overview where
  traffic : Multiset (Spot × Request)
  lines : Nat → Nat → Option Bool
  expected : Site → Multiset Nat
  outstanding : Outstanding
  nextId : Nat
  counters : Nat → Counters
  memoryReads : Nat
  memoryWriteBacks : Nat
  memoryCycle : Nat
  journal : List Event
  now : Nat
  completions : List Completion
  debt : Option Debt
  repair : Option Repair

def Event.isTracked : Event → Bool
  | lookedUp .. | merged .. | absorbed .. | filled .. | bypassed .. | installed .. | diverted ..
  | retired .. => true
  | _ => false

def Event.isRead : Event → Bool
  | accepted r => r.kind.isDemand
  | _ => false

theorem AccessKind.isWriteBack_of_isDemand {kind : AccessKind} (h : kind.isDemand = true) :
    kind.isWriteBack = false := by
  cases kind with
  | writeBack => cases h
  | _ => rfl

theorem Request.ne_writeBack {r : Request} (h : r.kind.isDemand = true) :
    r.kind ≠ .writeBack := by
  intro heq
  rw [heq] at h
  cases h

theorem Request.not_isDemand {r : Request} (h : r.kind = .writeBack) :
    ¬r.kind.isDemand = true := by
  rw [h]
  exact Bool.false_ne_true

def demandIds (traffic : Multiset (Spot × Request)) : Multiset Nat :=
  (traffic.filter fun x => x.2.kind.isDemand = true).map fun x => x.2.id

def Plan.writeBackIds (p : Plan) (site : Site) (traffic : Multiset (Spot × Request)) :
    Multiset Nat :=
  (traffic.filter fun x => x.2.kind = .writeBack ∧ p.receiver? x.1 = some site).map
    fun x => x.2.id

section Ids

variable {p : Plan} {site : Site} {s : Spot} {r : Request} {t : Multiset (Spot × Request)}

theorem demandIds_cons (h : r.kind.isDemand = true) :
    demandIds ((s, r) ::ₘ t) = r.id ::ₘ demandIds t := by
  simp [demandIds, h]

theorem demandIds_cons_of_not (h : ¬r.kind.isDemand = true) :
    demandIds ((s, r) ::ₘ t) = demandIds t := by
  simp [demandIds, h]

theorem demandIds_move {s' : Spot} {r' : Request} (hid : r'.id = r.id) (hkind : r'.kind = r.kind) :
    demandIds ((s', r') ::ₘ t) = demandIds ((s, r) ::ₘ t) := by
  by_cases h : r.kind.isDemand = true
  · rw [demandIds_cons h, demandIds_cons (hkind ▸ h), hid]
  · rw [demandIds_cons_of_not h, demandIds_cons_of_not (hkind ▸ h)]

theorem mem_demandIds {id : Nat} :
    id ∈ demandIds t ↔ ∃ s r, (s, r) ∈ t ∧ r.kind.isDemand = true ∧ r.id = id := by
  simp only [demandIds, Multiset.mem_map, Multiset.mem_filter, Prod.exists]
  exact exists_congr fun s => exists_congr fun r => and_assoc

theorem writeBackIds_cons (h : r.kind = .writeBack) (hs : p.receiver? s = some site) :
    p.writeBackIds site ((s, r) ::ₘ t) = r.id ::ₘ p.writeBackIds site t := by
  simp [Plan.writeBackIds, h, hs]

theorem writeBackIds_cons_of_ne (h : p.receiver? s ≠ some site) :
    p.writeBackIds site ((s, r) ::ₘ t) = p.writeBackIds site t := by
  simp [Plan.writeBackIds, h]

theorem writeBackIds_cons_of_not (h : r.kind ≠ .writeBack) :
    p.writeBackIds site ((s, r) ::ₘ t) = p.writeBackIds site t := by
  simp [Plan.writeBackIds, h]

theorem writeBackIds_cons_demand (h : r.kind.isDemand = true) :
    p.writeBackIds site ((s, r) ::ₘ t) = p.writeBackIds site t :=
  writeBackIds_cons_of_not (Request.ne_writeBack h)

theorem writeBackIds_move {s' : Spot} {r' : Request} (hid : r'.id = r.id)
    (hkind : r'.kind = r.kind) (hs : r.kind = .writeBack → p.receiver? s' = p.receiver? s) :
    p.writeBackIds site ((s', r') ::ₘ t) = p.writeBackIds site ((s, r) ::ₘ t) := by
  by_cases h : r.kind = .writeBack
  · by_cases hsite : p.receiver? s = some site
    · rw [writeBackIds_cons h hsite, writeBackIds_cons (hkind.trans h) ((hs h).trans hsite), hid]
    · rw [writeBackIds_cons_of_ne hsite, writeBackIds_cons_of_ne (hs h ▸ hsite)]
  · rw [writeBackIds_cons_of_not h, writeBackIds_cons_of_not (hkind ▸ h)]

theorem mem_writeBackIds {id : Nat} :
    id ∈ p.writeBackIds site t ↔
      ∃ s r, (s, r) ∈ t ∧ (r.kind = .writeBack ∧ p.receiver? s = some site) ∧ r.id = id := by
  simp only [Plan.writeBackIds, Multiset.mem_map, Multiset.mem_filter, Prod.exists]
  exact exists_congr fun s => exists_congr fun r => and_assoc

end Ids

namespace Overview

def start : Overview where
  traffic := 0
  lines := fun _ _ => none
  expected := fun _ => 0
  outstanding := {}
  nextId := 0
  counters := fun _ => {}
  memoryReads := 0
  memoryWriteBacks := 0
  memoryCycle := 0
  journal := []
  now := 0
  completions := []
  debt := none
  repair := none

/-- The kind that a request is to be serviced as. -/
def kindOf (o : Overview) (r : Request) : AccessKind :=
  (o.outstanding.kindOf? r.id).getD r.kind

def announce (o : Overview) (site : Site) (id : Nat) : Site → Multiset Nat :=
  Function.update o.expected site (id ::ₘ o.expected site)

def settle (o : Overview) (site : Site) (id : Nat) : Site → Multiset Nat :=
  Function.update o.expected site ((o.expected site).erase id)

end Overview

/-- A fill that would install the line of an address in cache `i` is marked to be bypassed. -/
def Plan.overtake (p : Plan) (i addr : Nat) (x : Spot × Request) : Spot × Request :=
  if x.1 = .fills i ∧ x.2.kind ≠ .writeBack ∧ p.line i x.2.addr = p.line i addr then
    (x.1, { x.2 with bypass := true })
  else x

section Overtake

variable {p : Plan} {i addr : Nat}

theorem overtake_fst (p : Plan) (i addr : Nat) (x : Spot × Request) :
    (p.overtake i addr x).1 = x.1 := by
  unfold Plan.overtake
  split <;> rfl

/-- Only the mark changes, and only that of a fill for the line. -/
theorem overtake_snd (p : Plan) (i addr : Nat) (x : Spot × Request) :
    (p.overtake i addr x).2 =
      { x.2 with
        bypass := x.2.bypass || decide
          (x.1 = .fills i ∧ x.2.kind ≠ .writeBack ∧ p.line i x.2.addr = p.line i addr) } := by
  unfold Plan.overtake
  split
  · rename_i h
    simp [h]
  · rename_i h
    simp [h]

theorem mem_overtake {s : Spot} {r : Request} {t : Multiset (Spot × Request)}
    (h : (s, r) ∈ t.map (p.overtake i addr)) :
    ∃ r₀, (s, r₀) ∈ t ∧ r = { r₀ with bypass := r.bypass } ∧
      (r.bypass = false → r₀.bypass = false ∧
        ¬(s = .fills i ∧ r₀.kind ≠ .writeBack ∧ p.line i r₀.addr = p.line i addr)) := by
  obtain ⟨⟨s₀, r₀⟩, hmem, heq⟩ := Multiset.mem_map.1 h
  have hs := overtake_fst p i addr (s₀, r₀)
  have hr := overtake_snd p i addr (s₀, r₀)
  rw [heq] at hs hr
  dsimp only at hs hr
  subst hs
  refine ⟨r₀, hmem, ?_, ?_⟩
  · rw [hr]
  · intro hb
    rw [hr] at hb
    simpa only [Bool.or_eq_false_iff, decide_eq_false_iff_not] using hb

theorem exists_mem_overtake {s : Spot} {r : Request} {t : Multiset (Spot × Request)}
    (h : (s, r) ∈ t) : ∃ bypass, (s, { r with bypass }) ∈ t.map (p.overtake i addr) := by
  have hmem := Multiset.mem_map_of_mem (p.overtake i addr) h
  unfold Plan.overtake at hmem ⊢
  split at hmem
  · exact ⟨true, hmem⟩
  · exact ⟨r.bypass, hmem⟩

theorem demandIds_overtake (t : Multiset (Spot × Request)) :
    demandIds (t.map (p.overtake i addr)) = demandIds t := by
  induction t using Multiset.induction with
  | empty => rfl
  | cons x t ih =>
    rw [Multiset.map_cons]
    simp only [demandIds, Multiset.filter_cons, overtake_snd, Multiset.map_add] at ih ⊢
    rw [ih]
    split <;> simp [overtake_snd]

theorem writeBackIds_overtake (site : Site) (t : Multiset (Spot × Request)) :
    p.writeBackIds site (t.map (p.overtake i addr)) = p.writeBackIds site t := by
  induction t using Multiset.induction with
  | empty => rfl
  | cons x t ih =>
    rw [Multiset.map_cons]
    simp only [Plan.writeBackIds, Multiset.filter_cons, overtake_snd, overtake_fst,
      Multiset.map_add] at ih ⊢
    rw [ih]
    split <;> simp [overtake_snd]

end Overtake

end CacheHierarchy
