import CacheHierarchy.Proofs.Conservation
import CacheHierarchy.Proofs.Custody
import Mathlib.Algebra.GroupWithZero.Nat

/-!
# Ledgers and queues

Between two commands the ledgers mirror the queues. The ledger of the second level lists the
write-backs that have not left the first level or wait to be filled in at the second; the ledger of
memory lists those that have not left the last cache or wait at memory; each is listed once, and
the ledgers of first-level caches are empty.

So the table of outstanding accesses and the ledgers together count the queues, and what they say
of a hierarchy, that it has no write-back under way or that it is idle, is what the queues say.
-/

namespace CacheHierarchy

def GatedQueue.writeBackIds (q : GatedQueue Request) : List Nat :=
  (q.items.filter fun r => r.kind = .writeBack).map Request.id

def Cache.unsentIds (c : Cache) : List Nat := c.writeBacks.writeBackIds ++ c.sends.writeBackIds

/-- A ledger lists these write-backs, each of them once. -/
structure WriteBackLedger.Lists (l : WriteBackLedger) (ids : List Nat) : Prop where
  nodup : l.ids.Nodup
  perm : l.ids.Perm ids

def Machine.queues (m : Machine) : List (GatedQueue Request) :=
  m.memory.queue :: m.caches.flatMap fun c => [c.lookups, c.fills, c.sends, c.writeBacks]

namespace Hierarchy

/-- Each ledger lists the write-backs that are on their way to its component. -/
def Mirrored (h : Hierarchy) : Prop :=
  match h.topology, h.machine.caches with
  | .dramOnly, [] => h.machine.memory.expected.Lists h.machine.memory.queue.writeBackIds
  | .singleLevel, [l1] =>
    l1.expected.Lists [] ∧
      h.machine.memory.expected.Lists (l1.unsentIds ++ h.machine.memory.queue.writeBackIds)
  | .multiLevel, [l1, l2] =>
    l1.expected.Lists [] ∧ l2.expected.Lists (l1.unsentIds ++ l2.fills.writeBackIds) ∧
      h.machine.memory.expected.Lists (l2.unsentIds ++ h.machine.memory.queue.writeBackIds)
  | .splitL1, [l1i, l1d, l2] =>
    l1i.expected.Lists [] ∧ l1d.expected.Lists [] ∧
      l2.expected.Lists (l1i.unsentIds ++ l1d.unsentIds ++ l2.fills.writeBackIds) ∧
      h.machine.memory.expected.Lists (l2.unsentIds ++ h.machine.memory.queue.writeBackIds)
  | _, _ => False

def expectedCount (h : Hierarchy) : Nat :=
  (h.machine.caches.map fun c => c.expected.length).sum + h.machine.memory.expected.length

/-- The ledgers mirror the queues, and the counts that are taken of them agree. -/
structure Ledgered (h : Hierarchy) : Prop where
  mirrored : h.Mirrored
  queued : h.queued = h.inFlight + h.expectedCount
  isWriteBackDone_iff : h.isWriteBackDone = true ↔
    ∀ q ∈ h.machine.queues, ∀ r ∈ q.items, r.kind ≠ .writeBack
  isIdle_iff : h.isIdle = true ↔ h.queued = 0

end Hierarchy

/-! Write-backs in traffic. -/

section Traffic

variable {p : Plan} {site : Site} {t t' : Multiset (Spot × Request)}

theorem writeBackIds_add :
    p.writeBackIds site (t + t') = p.writeBackIds site t + p.writeBackIds site t' := by
  simp only [Plan.writeBackIds, Multiset.filter_add, Multiset.map_add]

theorem writeBackIds_queue (s : Spot) (q : GatedQueue Request) :
    p.writeBackIds site ((q.items.map fun r => (s, r) : List (Spot × Request)) : Multiset _) =
      if p.receiver? s = some site then (q.writeBackIds : Multiset Nat) else 0 := by
  rw [GatedQueue.writeBackIds]
  induction q.items with
  | nil => simp [Plan.writeBackIds]
  | cons r rest ih =>
    rw [List.map_cons, ← Multiset.cons_coe]
    by_cases hkind : r.kind = .writeBack
    · by_cases hs : p.receiver? s = some site
      · rw [if_pos hs] at ih ⊢
        rw [writeBackIds_cons hkind hs, ih, List.filter_cons_of_pos (by simpa using hkind),
          List.map_cons, Multiset.cons_coe]
      · rw [if_neg hs] at ih ⊢
        rw [writeBackIds_cons_of_ne hs, ih]
    · rw [writeBackIds_cons_of_not hkind, ih, List.filter_cons_of_neg (by simpa using hkind)]

/-- The write-backs on their way to a component have numbers of requests in traffic. -/
theorem writeBackIds_le : p.writeBackIds site t ≤ requestIds t :=
  Multiset.map_le_map (Multiset.filter_le _ _)

theorem Plan.Fits.kind_eq {s : Spot} {r : Request} (h : p.Fits r s)
    (hr : ¬r.kind.isDemand = true) : r.kind = .writeBack := by
  cases s with
  | lookups i => exact absurd h.1 hr
  | fills i | sends i =>
    rcases h with hpass | hkind
    · exact absurd hpass.isDemand hr
    · exact hkind.1
  | writeBacks i => exact h.1
  | memory =>
    rcases h with hdemand | hkind
    · exact absurd hdemand.1 hr
    · exact hkind.1
  | finished => exact absurd h hr

theorem Plan.Fits.receiver_cases {s : Spot} {r : Request} (h : p.Fits r s)
    (hr : r.kind = .writeBack) :
    p.receiver? s = some .memory ∨
      ∃ b, p.topology.base? = some b ∧ p.receiver? s = some (.cache b) := by
  have hdemand := Request.not_isDemand hr
  have hbelow : ∀ i, p.receiver? s = some (p.topology.below i).site →
      p.receiver? s = some .memory ∨
        ∃ b, p.topology.base? = some b ∧ p.receiver? s = some (.cache b) := by
    intro i hi
    cases hb : p.topology.below i with
    | memory => exact .inl (hi.trans (by rw [hb]; rfl))
    | cache b => exact .inr ⟨b, (Topology.base?_of_below hb).1, hi.trans (by rw [hb]; rfl)⟩
  cases s with
  | lookups i => exact absurd h.1 hdemand
  | fills i =>
    rcases h with hpass | ⟨-, hbase⟩
    · exact absurd hpass.isDemand hdemand
    · exact .inr ⟨i, hbase, rfl⟩
  | sends i | writeBacks i => exact hbelow i rfl
  | memory => exact .inl rfl
  | finished => exact absurd h hdemand

/-- No write-back is on its way to a first-level cache. -/
theorem Orderly.expected_top {o : Overview} (h : Orderly p o) {i : Nat}
    (hi : i ∈ p.topology.tops) : o.expected (.cache i) = 0 := by
  rw [h.expected, Multiset.eq_zero_iff_forall_notMem]
  intro id hid
  obtain ⟨s, r, hr, ⟨hkind, hs⟩, -⟩ := mem_writeBackIds.1 hid
  rcases (h.admits _ hr).fits.receiver_cases hkind with hs' | ⟨b, hb, hs'⟩
  · rw [hs] at hs'
    cases hs'
  · rw [hs] at hs'
    cases hs'
    exact Topology.base_not_mem_tops hb hi

theorem card_traffic (hfits : ∀ x ∈ t, p.Fits x.2 x.1) :
    t.card = (demandIds t).card + ((p.topology.base?.elim 0 fun b =>
      (p.writeBackIds (.cache b) t).card) + (p.writeBackIds .memory t).card) := by
  induction t using Multiset.induction with
  | empty => cases p.topology.base? <;> rfl
  | cons x t ih =>
    obtain ⟨s, r⟩ := x
    have hx : p.Fits r s := hfits _ (Multiset.mem_cons_self _ _)
    rw [Multiset.card_cons, ih fun y hy => hfits y (Multiset.mem_cons_of_mem hy)]
    by_cases hdemand : r.kind.isDemand = true
    · simp only [demandIds_cons hdemand, writeBackIds_cons_demand hdemand, Multiset.card_cons]
      omega
    · have hkind := hx.kind_eq hdemand
      rw [demandIds_cons_of_not hdemand]
      rcases hx.receiver_cases hkind with hs | ⟨b, hb, hs⟩
      · have hbase : ∀ b, p.receiver? s ≠ some (.cache b) := by
          intro b hb
          rw [hs] at hb
          cases hb
        simp only [writeBackIds_cons hkind hs, writeBackIds_cons_of_ne (hbase _),
          Multiset.card_cons]
        omega
      · have hmemory : p.receiver? s ≠ some .memory := by
          rw [hs]
          exact fun heq => Site.noConfusion (Option.some.inj heq)
        simp only [hb, Option.elim_some, writeBackIds_cons hkind hs,
          writeBackIds_cons_of_ne hmemory, Multiset.card_cons]
        omega

end Traffic

namespace Machine

variable {p : Plan} {m : Machine}

theorem card_queued (k n : Nat) (caches : List Cache) :
    (queued k caches).card + n = (caches.map Cache.queued).foldr (· + ·) n := by
  induction caches generalizing k with
  | nil => exact Nat.zero_add n
  | cons c rest ih =>
    rw [List.map_cons, List.foldr_cons, ← ih (k + 1)]
    simp only [queued, Multiset.card_add, Cache.traffic, Multiset.coe_card, List.length_map,
      Cache.queued, GatedQueue.length]
    omega

theorem writeBackIds_cache (site : Site) (i : Nat) (c : Cache) :
    p.writeBackIds site (c.traffic i) =
      (if site = .cache i then (c.fills.writeBackIds : Multiset Nat) else 0) +
        (if site = (p.topology.below i).site then (c.unsentIds : Multiset Nat) else 0) := by
  simp only [Cache.traffic, writeBackIds_add, writeBackIds_queue, Plan.receiver?, reduceCtorEq,
    Option.some.injEq, if_false, zero_add, eq_comm (b := site), Cache.unsentIds,
    ← Multiset.coe_add]
  congr 1
  split
  · exact add_comm _ _
  · exact zero_add 0

theorem writeBackIds_traffic (site : Site) : p.writeBackIds site m.traffic =
    p.writeBackIds site (queued 0 m.caches) +
      if site = .memory then (m.memory.queue.writeBackIds : Multiset Nat) else 0 := by
  have hfinished := @writeBackIds_queue p site .finished ⟨m.finished⟩
  rw [Plan.receiver?, if_neg (Option.some_ne_none site).symm] at hfinished
  simp only [traffic, writeBackIds_add, writeBackIds_queue, hfinished, Plan.receiver?,
    Option.some.injEq, eq_comm (b := site), add_zero]

theorem card_traffic (hfinished : m.finished = []) : m.traffic.card =
    (m.caches.map Cache.queued).foldr (· + ·) m.memory.queue.length := by
  rw [← card_queued 0, traffic, hfinished, Multiset.card_add, List.map_nil, Multiset.coe_nil,
    add_zero, Multiset.coe_card, List.length_map, GatedQueue.length]

theorem map_caches (m : Machine) (f : Cache → Nat) :
    m.caches.map f = (List.range m.caches.length).map (m.view f 0) := by
  refine List.ext_getElem (by simp) fun i h _ => ?_
  rw [List.length_map] at h
  simp [view, List.getElem?_eq_getElem h]

theorem mem_queues (hfinished : m.finished = []) {r : Request} :
    (∃ q ∈ m.queues, r ∈ q.items) ↔ ∃ s, (s, r) ∈ m.traffic := by
  constructor
  · rintro ⟨q, hq, hr⟩
    rcases List.mem_cons.1 hq with rfl | hq
    · exact ⟨.memory, mem_itemsAt.1 hr⟩
    · obtain ⟨c, hc, hq⟩ := List.mem_flatMap.1 hq
      obtain ⟨i, hi⟩ := List.mem_iff_getElem?.1 hc
      have hmem : ∃ s, (s, r) ∈ c.traffic i := by
        simp only [List.mem_cons, List.not_mem_nil, or_false] at hq
        simp only [mem_traffic]
        rcases hq with rfl | rfl | rfl | rfl
        · exact ⟨_, .inl ⟨rfl, hr⟩⟩
        · exact ⟨_, .inr (.inl ⟨rfl, hr⟩)⟩
        · exact ⟨_, .inr (.inr (.inl ⟨rfl, hr⟩))⟩
        · exact ⟨_, .inr (.inr (.inr ⟨rfl, hr⟩))⟩
      exact hmem.imp fun s => mem_traffic_of_cache hi
  · rintro ⟨s, hr⟩
    rcases exists_of_mem_traffic hr with ⟨i, c, hc, hmem⟩ | rfl | rfl
    · have hq : ∃ q ∈ [c.lookups, c.fills, c.sends, c.writeBacks], r ∈ q.items := by
        rw [mem_traffic] at hmem
        rcases hmem with ⟨-, hr⟩ | ⟨-, hr⟩ | ⟨-, hr⟩ | ⟨-, hr⟩ <;> exact ⟨_, by simp, hr⟩
      obtain ⟨q, hq, hr⟩ := hq
      exact ⟨q, List.mem_cons_of_mem _ (List.mem_flatMap.2 ⟨c, List.mem_of_getElem? hc, hq⟩), hr⟩
    · exact ⟨m.memory.queue, List.mem_cons_self, mem_itemsAt.2 hr⟩
    · have hmem := mem_finished_of_mem_traffic hr
      rw [hfinished] at hmem
      cases hmem

end Machine

namespace Hierarchy

variable {p : Plan} {h : Hierarchy}

/-- A ledger lists the write-backs on their way to its component. -/
theorem Tracked.lists (h' : h.Tracked p) {site : Site} {l : WriteBackLedger} {ids : List Nat}
    (hl : h.machine.expectedAt site = l.ids)
    (hids : p.writeBackIds site h.machine.traffic = ids) : l.Lists ids := by
  have hexpected := h'.tracks.reach.orderly.expected site
  have hnodup := h'.tracks.reach.numbered.nodup
  rw [traffic_overview] at hexpected hnodup
  replace hexpected : (l.ids : Multiset Nat) = p.writeBackIds site h.machine.traffic :=
    hl.symm.trans hexpected
  constructor
  · rw [← Multiset.coe_nodup, hexpected]
    exact Multiset.nodup_of_le writeBackIds_le hnodup
  · rw [← Multiset.coe_eq_coe, hexpected, hids]

theorem Tracked.lists_top (h' : h.Tracked p) {i : Nat} {c : Cache} (hi : i ∈ p.topology.tops)
    (hc : h.machine.caches[i]? = some c) : c.expected.Lists [] := by
  have horderly := h'.tracks.reach.orderly
  have hexpected := horderly.expected (.cache i)
  rw [horderly.expected_top hi, traffic_overview] at hexpected
  exact h'.lists (Machine.expectedAt_eq hc) hexpected.symm

theorem Tracked.mirrored (h' : h.Tracked p) : h.Mirrored := by
  have hlength := h'.tracks.sound.length
  have hmemory := fun ids => @Tracked.lists p h h' .memory h.machine.memory.expected ids rfl
  have hbase := fun i (c : Cache) ids hc => @Tracked.lists p h h' (.cache i) c.expected ids
    (Machine.expectedAt_eq hc)
  have htop := fun i c => @Tracked.lists_top p h h' i c
  simp only [Machine.writeBackIds_traffic] at hmemory hbase
  unfold Mirrored
  rw [h'.topology]
  cases ht : p.topology with
  | dramOnly =>
    rw [ht] at hlength
    have hcaches := List.length_eq_zero_iff.1 hlength
    rw [hcaches] at hmemory ⊢
    refine hmemory _ ?_
    exact zero_add _
  | singleLevel =>
    rw [ht] at hlength
    obtain ⟨l1, hcaches⟩ := List.length_eq_one_iff.1 hlength
    rw [hcaches, ht] at htop
    rw [hcaches] at hmemory ⊢
    refine ⟨htop 0 _ (by decide) rfl, hmemory _ ?_⟩
    simp [Machine.queued, Machine.writeBackIds_cache, ht,
      Topology.below, Topology.base?, Below.site]
  | multiLevel =>
    rw [ht] at hlength
    obtain ⟨l1, l2, hcaches⟩ := List.length_eq_two.1 hlength
    rw [hcaches, ht] at htop
    rw [hcaches] at hmemory hbase ⊢
    refine ⟨htop 0 _ (by decide) rfl, hbase 1 _ _ rfl ?_, hmemory _ ?_⟩ <;>
    simp [Machine.queued, writeBackIds_add, Machine.writeBackIds_cache, ht,
      Topology.below, Topology.base?, Below.site]
  | splitL1 =>
    rw [ht] at hlength
    obtain ⟨l1i, l1d, l2, hcaches⟩ := List.length_eq_three.1 hlength
    rw [hcaches, ht] at htop
    rw [hcaches] at hmemory hbase ⊢
    refine ⟨htop 0 _ (by decide) rfl, htop 1 _ (by decide) rfl, hbase 2 _ _ rfl ?_,
      hmemory _ ?_⟩ <;>
    simp [Machine.queued, writeBackIds_add, Machine.writeBackIds_cache, ht,
      Topology.below, Topology.base?, Below.site]

/-- The ledgers of first-level caches are empty, so those of the base and of memory count. -/
theorem Tracked.expectedCount_eq (h' : h.Tracked p) :
    h.expectedCount = (p.topology.base?.elim 0 fun b => h.machine.pending (.cache b)) +
      h.machine.pending .memory := by
  have hpending := fun site => @Machine.card_expected
    { now := h.cycle, completions := h.completions } h.machine site
  have htops : p.topology.tops.map (fun i => h.machine.pending (.cache i)) =
      p.topology.tops.map fun _ => 0 := by
    refine List.map_congr_left fun i hi => ?_
    rw [← hpending, h'.tracks.reach.orderly.expected_top hi, Multiset.card_zero]
  have hrange : List.range p.topology.size = p.topology.tops ++ p.topology.base?.toList := by
    cases p.topology <;> rfl
  rw [expectedCount, Machine.map_caches, h'.tracks.sound.length, hrange, List.map_append]
  change (p.topology.tops.map (fun i => h.machine.pending (.cache i)) ++ _).sum + _ = _
  rw [htops, List.sum_append]
  cases p.topology.base? <;> simp [Machine.pending]

/-- What is queued is outstanding or expected. -/
theorem Tracked.queued_eq (h' : h.Tracked p) (hfinished : h.machine.finished = []) :
    h.queued = h.inFlight + h.expectedCount := by
  have hexpected := h'.tracks.reach.orderly.expected
  rw [traffic_overview] at hexpected
  rw [queued, ← Machine.card_traffic hfinished, CacheHierarchy.card_traffic fun _ => h'.fits,
    h'.ids, h'.expectedCount_eq]
  simp only [← hexpected, Machine.card_expected]
  rw [Multiset.coe_card, Outstanding.ids, List.length_map]
  rfl

/-- A hierarchy that expects no write-back has none in its queues. -/
theorem Tracked.isWriteBackDone_iff (h' : h.Tracked p) (hfinished : h.machine.finished = []) :
    h.isWriteBackDone = true ↔ ∀ q ∈ h.machine.queues, ∀ r ∈ q.items, r.kind ≠ .writeBack := by
  have horderly := h'.tracks.reach.orderly
  rw [isWriteBackDone_iff_expected { now := h.cycle, completions := h.completions }]
  constructor
  · intro hnone q hq r hr hkind
    obtain ⟨s, hs⟩ := (Machine.mem_queues hfinished).1 ⟨q, hq, hr⟩
    obtain ⟨site, hsite⟩ := (h'.fits hs).exists_receiver hkind
    rw [← traffic_overview] at hs
    have hmem := horderly.mem_expected hs hkind hsite
    rw [hnone site] at hmem
    exact Multiset.notMem_zero _ hmem
  · intro hnone site
    rw [horderly.expected, traffic_overview, Multiset.eq_zero_iff_forall_notMem]
    intro id hid
    obtain ⟨s, r, hr, ⟨hkind, -⟩, -⟩ := mem_writeBackIds.1 hid
    obtain ⟨q, hq, hmem⟩ := (Machine.mem_queues hfinished).2 ⟨s, hr⟩
    exact hnone q hq r hmem hkind

theorem isIdle_iff_count : h.isIdle = true ↔ h.inFlight + h.expectedCount = 0 := by
  simp only [isIdle, isWriteBackDone, inFlight, expectedCount, Bool.and_eq_true, List.all_eq_true,
    Outstanding.isEmpty, Outstanding.length, WriteBackLedger.isEmpty, WriteBackLedger.length,
    List.isEmpty_iff, ← List.length_eq_zero_iff, Nat.add_eq_zero_iff, List.forall_mem_map,
    List.sum_eq_zero_iff_forall_eq_nat]

theorem Tracked.ledgered (h' : h.Tracked p) (hfinished : h.machine.finished = []) :
    h.Ledgered where
  mirrored := h'.mirrored
  queued := h'.queued_eq hfinished
  isWriteBackDone_iff := h'.isWriteBackDone_iff hfinished
  isIdle_iff := by rw [isIdle_iff_count, h'.queued_eq hfinished]

def Settled (p : Plan) (h : Hierarchy) : Prop :=
  ∃ o : Outline Ticket, h.Shows p id o ∧ o.queue .finished = []

theorem Settled.ledgered (h' : h.Settled p) : h.Ledgered :=
  let ⟨_, hshows, hqueue⟩ := h'
  hshows.tracked.ledgered (hshows.finished_eq_nil hqueue)

theorem perform_settled (command : Command) (h' : h.Settled p) :
    Ends (fun _ => Settled p) (Fails p) (perform command h) := by
  obtain ⟨o, hshows, hqueue⟩ := h'
  refine ((perform_ends command hshows.tracked).and
    (perform_tickets command hshows hqueue)).mono ?_ fun _ _ => id
  rintro - s ⟨-, o', hshows', hqueue', -⟩
  exact ⟨o', hshows', hqueue'⟩

/-- In every run of a well-formed configuration the ledgers mirror the queues. -/
theorem run_mirrors_queues {c : HierarchyConfig} (hvalid : c.validate = .ok ()) (hsized : c.Sized)
    (commands : List Command) :
    ∃ start, ofConfig c = .ok start ∧ Ends (fun _ h => h.topology = c.topology ∧ h.Ledgered)
      (fun fault s => fault = .sumOverflow ∧ s.Exhausted ∨
        ¬c.Aligned ∧ ∃ array addr, fault = .writeBackMissed array addr) (run commands start) := by
  obtain ⟨start, o, hstart, ht, hshows, hfresh, hlines⟩ := exists_outlined_start hvalid hsized id
  have hends : Ends (fun _ => Settled start.plan) (Fails start.plan) (run commands start) :=
    Ends.forM (I := fun _ => Settled start.plan) (fun command _ _ => perform_settled command)
      ⟨o, hshows, hfresh.queue _⟩
  refine ⟨start, hstart, hends.mono (fun _ h hsettled => ?_) fun _ _ hfails =>
    hfails.safe ht hlines⟩
  have htopology : h.topology = start.plan.topology :=
    hsettled.elim fun _ hs => hs.1.tracked.topology
  exact ⟨htopology.trans ht, hsettled.ledgered⟩

theorem run_mirrors_queues_narrow :
    HierarchyConfig.narrow.validate = .ok () ∧ HierarchyConfig.narrow.Sized ∧
      ∃ start, ofConfig .narrow = .ok start ∧ Ends
        (fun _ h => h.topology = .splitL1 ∧ h.Ledgered)
        (fun fault s => fault = .sumOverflow ∧ s.Exhausted ∨
          ¬HierarchyConfig.narrow.Aligned ∧ ∃ array addr, fault = .writeBackMissed array addr)
        (run Command.mixed start) :=
  ⟨rfl, by decide, run_mirrors_queues rfl (by decide) _⟩

end Hierarchy

end CacheHierarchy
