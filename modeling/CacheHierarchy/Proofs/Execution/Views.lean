import CacheHierarchy.Proofs.Execution.Ends
import CacheHierarchy.Proofs.Overview.Preservation
import Mathlib.Algebra.Order.Group.Multiset

/-!
# The overview of a machine

`m.overview x` is the overview of a machine in the middle of an action. The context `x` adds what
the machine does not know: the hierarchy's clock and completions, the requests that the action has
taken out of their queues, and what it has left to do.

Almost every action replaces one cache by another. `m.put i c` is the machine with cache `c` in
place `i`, and the lemmas about it say how each part of the overview changes with the cache.
-/

namespace CacheHierarchy

/-- What the overview of a machine in the middle of an action shows besides the machine. -/
structure Context where
  now : Nat
  completions : List Completion := []
  /-- Requests that the action has in hand, each where it was found. -/
  held : Multiset (Spot × Request) := 0
  debt : Option Debt := none
  repair : Option Repair := none

def Cache.traffic (c : Cache) (i : Nat) : Multiset (Spot × Request) :=
  (c.lookups.items.map fun r => (.lookups i, r) : List (Spot × Request)) +
    ((c.fills.items.map fun r => (.fills i, r) : List (Spot × Request)) +
    ((c.sends.items.map fun r => (.sends i, r) : List (Spot × Request)) +
    (c.writeBacks.items.map fun r => (.writeBacks i, r) : List (Spot × Request))))

section Queues

variable {i : Nat} {r : Request} {rest : GatedQueue Request} (c : Cache)

theorem coe_push (s : Spot) (q : GatedQueue Request) (r : Request) :
    (((q.push r).items.map fun r => (s, r) : List (Spot × Request)) : Multiset (Spot × Request)) =
      (s, r) ::ₘ (q.items.map fun r => (s, r) : List (Spot × Request)) := by
  rw [GatedQueue.items_push, List.map_append, Multiset.cons_coe]
  exact Multiset.coe_eq_coe.2 (List.perm_append_singleton _ _)

theorem traffic_push_lookups :
    Cache.traffic { c with lookups := c.lookups.push r } i = (.lookups i, r) ::ₘ c.traffic i := by
  simp only [Cache.traffic, coe_push, Multiset.cons_add]

theorem traffic_push_fills :
    Cache.traffic { c with fills := c.fills.push r } i = (.fills i, r) ::ₘ c.traffic i := by
  simp only [Cache.traffic, coe_push, Multiset.cons_add, Multiset.add_cons]

theorem traffic_push_sends :
    Cache.traffic { c with sends := c.sends.push r } i = (.sends i, r) ::ₘ c.traffic i := by
  simp only [Cache.traffic, coe_push, Multiset.cons_add, Multiset.add_cons]

theorem traffic_push_writeBacks :
    Cache.traffic { c with writeBacks := c.writeBacks.push r } i =
      (.writeBacks i, r) ::ₘ c.traffic i := by
  simp only [Cache.traffic, coe_push, Multiset.add_cons]

theorem traffic_pop_lookups (h : c.lookups.items = r :: rest.items) :
    c.traffic i = (.lookups i, r) ::ₘ Cache.traffic { c with lookups := rest } i := by
  simp only [Cache.traffic, h, List.map_cons, ← Multiset.cons_coe, Multiset.cons_add]

theorem traffic_pop_fills (h : c.fills.items = r :: rest.items) :
    c.traffic i = (.fills i, r) ::ₘ Cache.traffic { c with fills := rest } i := by
  simp only [Cache.traffic, h, List.map_cons, ← Multiset.cons_coe, Multiset.cons_add,
    Multiset.add_cons]

theorem traffic_pop_sends (h : c.sends.items = r :: rest.items) :
    c.traffic i = (.sends i, r) ::ₘ Cache.traffic { c with sends := rest } i := by
  simp only [Cache.traffic, h, List.map_cons, ← Multiset.cons_coe, Multiset.cons_add,
    Multiset.add_cons]

theorem mem_traffic {s : Spot} : (s, r) ∈ c.traffic i ↔
    s = .lookups i ∧ r ∈ c.lookups.items ∨ s = .fills i ∧ r ∈ c.fills.items ∨
      s = .sends i ∧ r ∈ c.sends.items ∨ s = .writeBacks i ∧ r ∈ c.writeBacks.items := by
  simp only [Cache.traffic, Multiset.mem_add, Multiset.mem_coe, List.mem_map, Prod.mk.injEq]
  constructor
  · rintro (⟨r, hr, rfl, rfl⟩ | ⟨r, hr, rfl, rfl⟩ | ⟨r, hr, rfl, rfl⟩ | ⟨r, hr, rfl, rfl⟩) <;>
      simp [hr]
  · rintro (⟨rfl, hr⟩ | ⟨rfl, hr⟩ | ⟨rfl, hr⟩ | ⟨rfl, hr⟩) <;> simp [hr]

end Queues

namespace Machine

def queued : Nat → List Cache → Multiset (Spot × Request)
  | _, [] => 0
  | k, c :: rest => c.traffic k + queued (k + 1) rest

def traffic (m : Machine) : Multiset (Spot × Request) :=
  queued 0 m.caches +
    ((m.memory.queue.items.map fun r => (.memory, r) : List (Spot × Request)) +
    (m.finished.map fun r => (.finished, r) : List (Spot × Request)))

theorem mem_queued {caches : List Cache} {i k : Nat} {c : Cache} {x : Spot × Request}
    (hc : caches[i]? = some c) (h : x ∈ c.traffic (k + i)) : x ∈ queued k caches := by
  induction caches generalizing i k with
  | nil => cases hc
  | cons d rest ih =>
    cases i with
    | zero =>
      obtain rfl := Option.some.inj hc
      exact Multiset.mem_add.2 (.inl h)
    | succ i =>
      refine Multiset.mem_add.2 (.inr (ih hc ?_))
      rwa [Nat.succ_add_eq_add_succ]

theorem mem_traffic_of_cache {m : Machine} {i : Nat} {c : Cache} {x : Spot × Request}
    (hc : m.caches[i]? = some c) (h : x ∈ c.traffic i) : x ∈ m.traffic :=
  Multiset.mem_add.2 (.inl (mem_queued hc ((Nat.zero_add i).symm ▸ h)))

theorem exists_of_mem_queued {caches : List Cache} {k : Nat} {x : Spot × Request}
    (h : x ∈ queued k caches) : ∃ i, ∃ c : Cache, caches[i]? = some c ∧ x ∈ c.traffic (k + i) := by
  induction caches generalizing k with
  | nil => cases h
  | cons c rest ih =>
    rcases Multiset.mem_add.1 h with h | h
    · exact ⟨0, c, rfl, h⟩
    · obtain ⟨i, d, hd, hmem⟩ := ih h
      rw [Nat.add_right_comm] at hmem
      exact ⟨i + 1, d, hd, hmem⟩

theorem exists_of_mem_traffic {m : Machine} {s : Spot} {r : Request} (h : (s, r) ∈ m.traffic) :
    (∃ i, ∃ c : Cache, m.caches[i]? = some c ∧ (s, r) ∈ c.traffic i) ∨
      s = .memory ∨ s = .finished := by
  simp only [traffic, Multiset.mem_add, Multiset.mem_coe, List.mem_map, Prod.mk.injEq] at h
  rcases h with h | ⟨_, -, rfl, -⟩ | ⟨_, -, rfl, -⟩
  · obtain ⟨i, c, hc, hmem⟩ := exists_of_mem_queued h
    rw [Nat.zero_add] at hmem
    exact .inl ⟨i, c, hc, hmem⟩
  · exact .inr (.inl rfl)
  · exact .inr (.inr rfl)

theorem mem_finished_of_mem_traffic {m : Machine} {r : Request}
    (h : (.finished, r) ∈ m.traffic) : r ∈ m.finished := by
  simp only [traffic, Multiset.mem_add, Multiset.mem_coe, List.mem_map, Prod.mk.injEq] at h
  rcases h with h | ⟨_, -, hs, -⟩ | ⟨r', hr', -, rfl⟩
  · obtain ⟨i, c, -, hmem⟩ := exists_of_mem_queued h
    rw [mem_traffic] at hmem
    rcases hmem with ⟨hs, -⟩ | ⟨hs, -⟩ | ⟨hs, -⟩ | ⟨hs, -⟩ <;> cases hs
  · cases hs
  · exact hr'

theorem mem_fills_of_mem_traffic {m : Machine} {i : Nat} {c : Cache} {r : Request}
    (hc : m.caches[i]? = some c) (h : (.fills i, r) ∈ m.traffic) : r ∈ c.fills.items := by
  rcases exists_of_mem_traffic h with ⟨j, d, hd, hmem⟩ | hs | hs
  · rw [mem_traffic] at hmem
    rcases hmem with ⟨hs, -⟩ | ⟨hs, hr⟩ | ⟨hs, -⟩ | ⟨hs, -⟩ <;> cases hs
    rw [hc] at hd
    cases hd
    exact hr
  · cases hs
  · cases hs

def view {α : Type} (m : Machine) (f : Cache → α) (absent : α) (i : Nat) : α :=
  m.caches[i]?.elim absent f

def expectedAt (m : Machine) : Site → Multiset Nat
  | .memory => m.memory.expected.ids
  | .cache i => m.view (fun c => (c.expected.ids : Multiset Nat)) 0 i

theorem expectedAt_memory (m : Machine) (memory : Memory) :
    expectedAt { m with memory } =
      Function.update m.expectedAt .memory (memory.expected.ids : Multiset Nat) := by
  funext site
  cases site with
  | memory => rw [Function.update_self, expectedAt]
  | cache i =>
    rw [Function.update_of_ne fun h => Site.noConfusion h]
    rfl

/-- The overview of a machine in the middle of an action. -/
def overview (m : Machine) (x : Context) : Overview where
  traffic := m.traffic + x.held
  lines := m.view (fun c => c.tags.lines) fun _ => none
  expected := m.expectedAt
  outstanding := m.outstanding
  nextId := m.nextId
  counters := m.view (fun c => c.tags.counters) {}
  memoryReads := m.memory.reads
  memoryWriteBacks := m.memory.writeBacks
  memoryCycle := m.memory.cycle
  journal := m.journal
  now := x.now
  completions := x.completions
  debt := x.debt
  repair := x.repair

/-- The machine with another cache in one place. -/
def put (m : Machine) (i : Nat) (c : Cache) : Machine := { m with caches := m.caches.set i c }

section Put

variable {m : Machine} {i : Nat} {c : Cache} (hc : m.caches[i]? = some c) (c' : Cache)

include hc

theorem caches_put_self : (m.put i c').caches[i]? = some c' := by
  have hlt : i < m.caches.length := (List.getElem?_eq_some_iff.1 hc).1
  exact List.getElem?_set_self hlt

omit hc in
theorem caches_put_ne {j : Nat} (h : j ≠ i) : (m.put i c').caches[j]? = m.caches[j]? :=
  List.getElem?_set_ne (Ne.symm h)

omit hc in
theorem put_put (c'' : Cache) : (m.put i c').put i c'' = m.put i c'' := by
  simp only [put, List.set_set]

theorem view_put {α : Type} (f : Cache → α) (absent : α) :
    (m.put i c').view f absent = Function.update (m.view f absent) i (f c') := by
  funext j
  by_cases hj : j = i
  · subst hj
    rw [Function.update_self, view, caches_put_self hc]
    rfl
  · rw [Function.update_of_ne hj, view, caches_put_ne c' hj]
    rfl

omit c' in
theorem view_eq {α : Type} (f : Cache → α) (absent : α) : m.view f absent i = f c := by
  rw [view, hc]
  rfl

theorem view_put_same {α : Type} {f : Cache → α} (h : f c' = f c) (absent : α) :
    (m.put i c').view f absent = m.view f absent := by
  rw [view_put hc, h, ← view_eq hc f absent, Function.update_eq_self]

theorem expectedAt_put :
    (m.put i c').expectedAt = Function.update m.expectedAt (.cache i) c'.expected.ids := by
  funext site
  cases site with
  | memory =>
    rw [Function.update_of_ne fun h => Site.noConfusion h]
    rfl
  | cache j =>
    by_cases hj : j = i
    · subst hj
      rw [Function.update_self, expectedAt, view_put hc, Function.update_self]
    · rw [Function.update_of_ne fun h => hj (Site.cache.inj h), expectedAt, view_put hc,
        Function.update_of_ne hj]
      rfl

omit c' in
theorem expectedAt_eq : m.expectedAt (.cache i) = c.expected.ids := view_eq hc _ _

theorem expectedAt_put_same (h : c'.expected = c.expected) :
    (m.put i c').expectedAt = m.expectedAt := by
  rw [expectedAt_put hc, h, ← expectedAt_eq hc, Function.update_eq_self]

omit hc in
theorem queued_set {caches : List Cache} {i k : Nat} {c : Cache} (hc : caches[i]? = some c)
    (c' : Cache) :
    queued k (caches.set i c') + c.traffic (k + i) = queued k caches + c'.traffic (k + i) := by
  induction caches generalizing i k with
  | nil => cases hc
  | cons d rest ih =>
    cases i with
    | zero =>
      obtain rfl := Option.some.inj hc
      simp only [List.set_cons_zero, queued, Nat.add_zero]
      rw [add_right_comm, add_comm (c'.traffic k), add_right_comm]
    | succ i =>
      have hrest := ih (k := k + 1) hc
      rw [Nat.succ_add_eq_add_succ] at hrest
      simp only [List.set_cons_succ, queued]
      rw [add_assoc, hrest, add_assoc]

theorem traffic_put : (m.put i c').traffic + c.traffic i = m.traffic + c'.traffic i := by
  have hset := queued_set (k := 0) hc c'
  rw [Nat.zero_add] at hset
  simp only [traffic, put]
  rw [add_right_comm, hset, add_right_comm]

theorem traffic_put_same (h : c'.traffic i = c.traffic i) : (m.put i c').traffic = m.traffic := by
  have htraffic := traffic_put hc c'
  rw [h] at htraffic
  exact add_right_cancel htraffic

theorem traffic_put_add {u : Multiset (Spot × Request)} (h : c'.traffic i = u + c.traffic i) :
    (m.put i c').traffic = u + m.traffic := by
  have htraffic := traffic_put hc c'
  rw [h, ← add_assoc] at htraffic
  rw [add_right_cancel htraffic, add_comm]

theorem traffic_eq_put_add {u : Multiset (Spot × Request)} (h : c.traffic i = u + c'.traffic i) :
    m.traffic = u + (m.put i c').traffic := by
  have htraffic := traffic_put hc c'
  rw [h, ← add_assoc] at htraffic
  rw [← add_right_cancel htraffic, add_comm]

end Put

end Machine

end CacheHierarchy
