import CacheHierarchy.Proofs.Overview.Balanced
import CacheHierarchy.Proofs.Safety

/-!
# Conservation of write-backs

Between two commands no write-back is owed, so the account of every receiver can be read off the
counters: what was sent to it has been taken in, passed on, or is still expected. Where nothing is
expected any more, each dirty line that was given up has been taken in once.
-/

namespace CacheHierarchy

def Cache.total (f : Counters → Nat) (caches : List Cache) : Nat :=
  (caches.map fun c => f c.tags.counters).foldr (· + ·) 0

namespace Machine

def pending (m : Machine) : Site → Nat
  | .memory => m.memory.expected.length
  | .cache i => m.view (fun c => c.expected.length) 0 i

/-- The accounts of memory and of the base, at position `b`, below first-level caches. -/
structure Accounts (m : Machine) (tops : List Cache) (b : Nat) (base : Cache)
    (pending : Site → Nat) : Prop where
  memory : m.memory.writeBacks + pending .memory =
    base.tags.counters.writeBacks + Cache.total Counters.dirtyBackInvalidations tops
  base : Cache.total Counters.writeBacks tops =
    m.journal.countP (Event.isAbsorbedBy (.cache b)) + m.journal.countP (Event.isDivertedBy b) +
      pending (.cache b)

end Machine

namespace Hierarchy

/-- No counter of write-backs is saturated. -/
def Unsaturated (h : Hierarchy) : Prop := ∀ c ∈ h.machine.caches, c.tags.counters.Unsaturated

/-- Every write-back that was made is accounted for, where so many are on their way. -/
def Accounted (h : Hierarchy) (pending : Site → Nat) : Prop :=
  match h.topology, h.machine.caches with
  | .dramOnly, [] => h.machine.memory.writeBacks = 0 ∧ pending .memory = 0
  | .singleLevel, [l1] =>
    h.machine.memory.writeBacks + pending .memory = l1.tags.counters.writeBacks
  | .multiLevel, [l1, l2] => h.machine.Accounts [l1] 1 l2 pending
  | .splitL1, [l1i, l1d, l2] => h.machine.Accounts [l1i, l1d] 2 l2 pending
  | _, _ => False

end Hierarchy

namespace WriteBackLedger

theorem length_ids (l : WriteBackLedger) : l.ids.length = l.length := List.length_map _

end WriteBackLedger

namespace Machine

variable {p : Plan} {x : Context} {m : Machine}

theorem card_expected (site : Site) : ((m.overview x).expected site).card = m.pending site := by
  cases site with
  | memory => exact WriteBackLedger.length_ids _
  | cache i =>
    simp only [overview, expectedAt, pending, view]
    cases m.caches[i]? with
    | none => rfl
    | some c => exact WriteBackLedger.length_ids _

theorem unsaturated_overview (hsound : m.Sound p)
    (h : ∀ c ∈ m.caches, c.tags.counters.Unsaturated) : (m.overview x).Unsaturated p := by
  intro i hi
  obtain ⟨c, hc, -⟩ := hsound.exists_cache hi
  rw [counters_overview hc]
  exact h c (List.mem_of_getElem? hc)

theorem total_overview {tops : List Cache}
    (htops : p.topology.tops.map (fun i => m.caches[i]?) = tops.map some) (f : Counters → Nat) :
    p.topology.total (f ∘ (m.overview x).counters) = Cache.total f tops := by
  have hmap := congrArg
    (List.map fun c : Option Cache => f (c.elim {} fun c => c.tags.counters)) htops
  rw [List.map_map, List.map_map] at hmap
  exact congrArg (List.foldr (· + ·) 0) hmap

/-- Where nothing is owed, the account of a base is that of its counters. -/
theorem accounts_of_balanced (h : Balanced p (m.overview x)) (hdebt : x.debt = none) {b : Nat}
    (hb : p.topology.base? = some b) {tops : List Cache} {base : Cache}
    (htops : p.topology.tops.map (fun i => m.caches[i]?) = tops.map some)
    (hbase : m.caches[b]? = some base) : m.Accounts tops b base m.pending := by
  have howed : ∀ site, p.owed (m.overview x).debt site = 0 := by
    intro site
    rw [overview, hdebt]
    rfl
  refine ⟨?_, ?_⟩
  · have hmemory := h.memory b (Topology.last?_of_base? hb)
    rwa [howed, Nat.add_zero, card_expected, total_overview htops, Function.comp_apply,
      counters_overview hbase] at hmemory
  · have hsent := h.base b hb
    rwa [howed, Nat.add_zero, card_expected, total_overview htops] at hsent

end Machine

namespace Hierarchy

variable {p : Plan} {h : Hierarchy}

theorem Tracked.accounted (h' : h.Tracked p) (hunsat : h.Unsaturated) :
    h.Accounted h.machine.pending := by
  obtain ⟨htopology, htracks⟩ := h'
  have hbalanced := htracks.reach.balanced (Machine.unsaturated_overview htracks.sound hunsat)
  have hlength := htracks.sound.length
  unfold Accounted
  rw [htopology]
  cases ht : p.topology with
  | dramOnly =>
    rw [ht] at hlength
    rw [List.length_eq_zero_iff.1 hlength]
    have hlast : p.topology.last? = none := by rw [ht]; rfl
    refine ⟨hbalanced.dram hlast, ?_⟩
    rw [← Machine.card_expected, htracks.reach.expected_eq_zero hlast]
    rfl
  | singleLevel =>
    rw [ht] at hlength
    obtain ⟨l1, hcaches⟩ := List.length_eq_one_iff.1 hlength
    rw [hcaches]
    have hl1 : h.machine.caches[0]? = some l1 := by
      rw [hcaches]
      rfl
    have htops : p.topology.tops.map (fun i => h.machine.caches[i]?) = [l1].map some := by
      rw [ht, hcaches]
      rfl
    have hmemory := hbalanced.memory 0 (by rw [ht]; rfl)
    have hdirect := hbalanced.direct (by rw [ht]; rfl) 0
    rw [Function.comp_apply, Machine.counters_overview hl1] at hdirect
    rw [Machine.total_overview htops, Machine.card_expected, Function.comp_apply,
      Machine.counters_overview hl1] at hmemory
    rwa [Cache.total, List.map_singleton, hdirect] at hmemory
  | multiLevel =>
    rw [ht] at hlength
    obtain ⟨l1, l2, hcaches⟩ := List.length_eq_two.1 hlength
    rw [hcaches]
    refine Machine.accounts_of_balanced hbalanced rfl (by rw [ht]; rfl) ?_ ?_
    · rw [ht, hcaches]
      rfl
    · rw [hcaches]
      rfl
  | splitL1 =>
    rw [ht] at hlength
    obtain ⟨l1i, l1d, l2, hcaches⟩ := List.length_eq_three.1 hlength
    rw [hcaches]
    refine Machine.accounts_of_balanced hbalanced rfl (by rw [ht]; rfl) ?_ ?_
    · rw [ht, hcaches]
      rfl
    · rw [hcaches]
      rfl

theorem pending_of_isIdle (h' : h.isIdle = true) : h.machine.pending = fun _ => 0 := by
  funext site
  rw [← Machine.card_expected (x := { now := h.cycle }), expected_of_isIdle h', Multiset.card_zero]

/-- While no counter of write-backs is saturated, every run accounts for all write-backs. At idle
none of them is on its way. -/
theorem run_conserves_writeBacks {c : HierarchyConfig} (hvalid : c.validate = .ok ())
    (hsized : c.Sized) (commands : List Command) :
    ∃ start, ofConfig c = .ok start ∧ Ends
      (fun _ h => h.Unsaturated → h.topology = c.topology ∧ h.Accounted h.machine.pending ∧
        (h.isIdle = true → h.Accounted fun _ => 0))
      (fun fault s => fault = .sumOverflow ∧ s.Exhausted ∨
        ¬c.Aligned ∧ ∃ array addr, fault = .writeBackMissed array addr) (run commands start) := by
  obtain ⟨start, p, hstart, ht, hends⟩ := exists_safe_run hvalid hsized commands
  refine ⟨start, hstart, hends.mono (fun _ h htracked hunsat => ?_) fun _ _ => id⟩
  have haccounted := htracked.accounted hunsat
  refine ⟨htracked.topology.trans ht, haccounted, fun hidle => ?_⟩
  rwa [pending_of_isIdle hidle] at haccounted

theorem run_conserves_writeBacks_narrow :
    HierarchyConfig.narrow.validate = .ok () ∧ HierarchyConfig.narrow.Sized ∧
      ∃ start, ofConfig .narrow = .ok start ∧ Ends
        (fun _ h => h.Unsaturated → h.topology = .splitL1 ∧ h.Accounted h.machine.pending ∧
          (h.isIdle = true → h.Accounted fun _ => 0))
        (fun fault s => fault = .sumOverflow ∧ s.Exhausted ∨
          ¬HierarchyConfig.narrow.Aligned ∧ ∃ array addr, fault = .writeBackMissed array addr)
        (run Command.mixed start) :=
  ⟨rfl, by decide, run_conserves_writeBacks rfl (by decide) _⟩

end Hierarchy

end CacheHierarchy
