import CacheHierarchy.Hierarchy.Statistics
import CacheHierarchy.Proofs.Conservation
import CacheHierarchy.Proofs.Custody
import CacheHierarchy.Proofs.Overview.Tallied

/-!
# Agreement of the counters

In an idle hierarchy no request is on its way to where it would be counted, so the counters of the
levels agree: every access was looked up in the first level, every miss there was looked up in the
second, and every miss of the last cache was read from memory. A completion says of its access
whether it was one of the misses.
-/

namespace CacheHierarchy

namespace Machine

/-- The counters of first-level caches and of a second level agree with each other, with those of
memory and with the numbers of accesses and of misses. -/
structure LevelsAgree (m : Machine) (tops : List Cache) (base : Cache) (issued missed : Nat) :
    Prop where
  accesses : Cache.total Counters.accesses tops = issued
  misses : Cache.total Counters.misses tops = missed
  accessesBelow : base.tags.counters.accesses = Cache.total Counters.misses tops
  writesBelow : base.tags.counters.writes = 0
  reads : m.memory.reads = base.tags.counters.misses

end Machine

/-- The counters of all levels agree with the numbers of accesses and of misses. -/
def Hierarchy.Agrees (h : Hierarchy) (issued missed : Nat) : Prop :=
  (∀ c ∈ h.machine.caches,
    c.tags.counters.hits + c.tags.counters.misses = c.tags.counters.accesses) ∧
  match h.topology, h.machine.caches with
  | .dramOnly, [] => h.machine.memory.reads = issued ∧ missed = 0
  | .singleLevel, [l1] =>
    l1.tags.counters.accesses = issued ∧ l1.tags.counters.misses = missed ∧
      h.machine.memory.reads = l1.tags.counters.misses
  | .multiLevel, [l1, l2] => h.machine.LevelsAgree [l1] l2 issued missed
  | .splitL1, [l1i, l1d, l2] => h.machine.LevelsAgree [l1i, l1d] l2 issued missed
  | _, _ => False

def Hierarchy.tally (h : Hierarchy) : Tally :=
  (h.machine.overview { now := h.cycle, completions := h.completions }).tally

namespace Machine

variable {p : Plan} {m : Machine}

theorem Sound.map_tops (h : m.Sound p) :
    p.topology.tops.map (fun i => m.caches[i]?) = (m.caches.filter Cache.isTop).map some := by
  have hlength := h.length
  have habove : ∀ i c, m.caches[i]? = some c → c.isTop = (p.topology.above i == .core) :=
    fun i c hc => congrArg (· == .core) (h.caches i c hc).above
  cases ht : p.topology with
  | dramOnly =>
    rw [ht] at hlength
    rw [List.length_eq_zero_iff.1 hlength]
    rfl
  | singleLevel =>
    rw [ht] at hlength habove
    obtain ⟨l1, hcaches⟩ := List.length_eq_one_iff.1 hlength
    rw [hcaches] at habove ⊢
    have h1 : l1.isTop = true := habove 0 l1 rfl
    simp [Topology.tops, h1]
  | multiLevel =>
    rw [ht] at hlength habove
    obtain ⟨l1, l2, hcaches⟩ := List.length_eq_two.1 hlength
    rw [hcaches] at habove ⊢
    have h1 : l1.isTop = true := habove 0 l1 rfl
    have h2 : l2.isTop = false := habove 1 l2 rfl
    simp [Topology.tops, h1, h2]
  | splitL1 =>
    rw [ht] at hlength habove
    obtain ⟨l1i, l1d, l2, hcaches⟩ := List.length_eq_three.1 hlength
    rw [hcaches] at habove ⊢
    have hi : l1i.isTop = true := habove 0 l1i rfl
    have hd : l1d.isTop = true := habove 1 l1d rfl
    have h2 : l2.isTop = false := habove 2 l2 rfl
    simp [Topology.tops, hi, hd, h2]

end Machine

theorem Cache.misses_foldl (caches : List Cache) (sum : Counters)
    (h : sum.misses + total Counters.misses caches < wordLimit) :
    (caches.foldl (fun sum c => sum + c.tags.counters) sum).misses =
      sum.misses + total Counters.misses caches := by
  induction caches generalizing sum with
  | nil => rfl
  | cons c rest ih =>
    have hcons : total Counters.misses (c :: rest) =
      c.tags.counters.misses + total Counters.misses rest := rfl
    have hsum : (sum + c.tags.counters).misses = sum.misses + c.tags.counters.misses := by
      change Word.addCapped _ _ = _
      unfold Word.addCapped
      omega
    rw [List.foldl_cons, ih _ (by omega), hsum, hcons, Nat.add_assoc]

namespace Hierarchy

variable {p : Plan} {h : Hierarchy}

theorem tally_counters {i : Nat} {c : Cache} (hc : h.machine.caches[i]? = some c) :
    h.tally.counters i = c.tags.counters.lookups :=
  congrArg Counters.lookups (Machine.counters_overview hc)

theorem total_tally {tops : List Cache}
    (htops : p.topology.tops.map (fun i => h.machine.caches[i]?) = tops.map some)
    {f : Counters → Nat} (hf : ∀ c : Counters, f c.lookups = f c) :
    p.topology.total (f ∘ h.tally.counters) = Cache.total f tops := by
  rw [← Machine.total_overview htops (x := { now := h.cycle, completions := h.completions })]
  exact congrArg p.topology.total (funext fun i => hf _)

theorem ids_of_isIdle (hidle : h.isIdle = true) : h.machine.outstanding.ids = [] :=
  congrArg (List.map OutstandingAccess.id) (entries_of_isIdle hidle { now := h.cycle })

theorem issued_of_isIdle (hidle : h.isIdle = true) : h.tally.issued = h.completions.length := by
  change (h.machine.outstanding.ids ++ h.completions.map Completion.id).length = _
  rw [ids_of_isIdle hidle, List.nil_append, List.length_map]

namespace Tracked

variable (h' : h.Tracked p)

include h'

theorem tally : h.tally.Sound p := h'.tracks.reach.tally

theorem demands_of_isIdle (hidle : h.isIdle = true) : h.tally.demands = 0 := by
  refine demandSpots_eq_zero (h'.tracks.reach.orderly.ids.trans ?_)
  exact congrArg Multiset.ofList (ids_of_isIdle hidle)

theorem levelsAgree (hidle : h.isIdle = true) {b : Nat} (hb : p.topology.base? = some b)
    {tops : List Cache} {base : Cache}
    (htops : p.topology.tops.map (fun i => h.machine.caches[i]?) = tops.map some)
    (hbase : h.machine.caches[b]? = some base) :
    h.machine.LevelsAgree tops base h.completions.length
      (h.completions.countP Completion.miss) := by
  have hnone := h'.demands_of_isIdle hidle
  have hasked := h'.tally.asked (Topology.last?_ne_none_of_base? hb)
  have hmissed := h'.tally.missed
  have hbelow := h'.tally.below b hb
  have hread := h'.tally.read b (Topology.last?_of_base? hb)
  have hwrites := h'.tally.unwritten b hb
  rw [tally_counters hbase] at hbelow hread hwrites
  rw [hnone, census_zero] at hasked hmissed hbelow hread
  rw [total_tally htops fun _ => rfl] at hasked hmissed hbelow
  rw [issued_of_isIdle hidle] at hasked
  exact ⟨hasked, hmissed.trans (Nat.zero_add _), hbelow, hwrites, hread⟩

theorem agrees (hidle : h.isIdle = true) :
    h.Agrees h.completions.length (h.completions.countP Completion.miss) := by
  have hnone := h'.demands_of_isIdle hidle
  have hissued := issued_of_isIdle hidle
  have hlength := h'.tracks.sound.length
  refine ⟨fun c hc => ?_, ?_⟩
  · obtain ⟨i, hi⟩ := List.mem_iff_getElem?.1 hc
    have hparts := h'.tally.parts i
    rwa [tally_counters hi] at hparts
  rw [h'.topology]
  cases ht : p.topology with
  | dramOnly =>
    rw [ht] at hlength
    rw [List.length_eq_zero_iff.1 hlength]
    have hdirect := h'.tally.direct (by rw [ht]; rfl)
    have hmissed := h'.tally.missed
    rw [hnone, census_zero] at hdirect hmissed
    rw [ht, Nat.zero_add] at hmissed
    exact ⟨hdirect.trans hissued, hmissed.symm⟩
  | singleLevel =>
    rw [ht] at hlength
    obtain ⟨l1, hcaches⟩ := List.length_eq_one_iff.1 hlength
    rw [hcaches]
    have hl1 : h.machine.caches[0]? = some l1 := by
      rw [hcaches]
      rfl
    have htops : p.topology.tops.map (fun i => h.machine.caches[i]?) = [l1].map some := by
      rw [ht, hcaches]
      rfl
    have hasked := h'.tally.asked (by rw [ht]; exact Option.some_ne_none 0)
    have hmissed := h'.tally.missed
    have hread := h'.tally.read 0 (by rw [ht]; rfl)
    rw [hnone, census_zero, total_tally htops fun _ => rfl] at hasked hmissed
    rw [hnone, census_zero, tally_counters hl1] at hread
    exact ⟨hasked.trans hissued, hmissed.trans (Nat.zero_add _), hread⟩
  | multiLevel =>
    rw [ht] at hlength
    obtain ⟨l1, l2, hcaches⟩ := List.length_eq_two.1 hlength
    rw [hcaches]
    refine h'.levelsAgree hidle (by rw [ht]; rfl) ?_ ?_
    · rw [ht, hcaches]
      rfl
    · rw [hcaches]
      rfl
  | splitL1 =>
    rw [ht] at hlength
    obtain ⟨l1i, l1d, l2, hcaches⟩ := List.length_eq_three.1 hlength
    rw [hcaches]
    refine h'.levelsAgree hidle (by rw [ht]; rfl) ?_ ?_
    · rw [ht, hcaches]
      rfl
    · rw [hcaches]
      rfl

/-- The misses that the statistics give for the first level are those that the core has learned
of. -/
theorem misses_topLevel (hidle : h.isIdle = true) :
    h.statistics.topLevel.misses = h.completions.countP Completion.miss := by
  have htops := h'.tracks.sound.map_tops
  have hmissed := h'.tally.missed
  rw [h'.demands_of_isIdle hidle, census_zero, Nat.zero_add, total_tally htops fun _ => rfl]
    at hmissed
  have hle : h.completions.countP Completion.miss ≤ h.completions.length := List.countP_le_length
  have hbounded := h'.tally.bounded
  rw [issued_of_isIdle hidle] at hbounded
  have hlt : Counters.misses {} + Cache.total Counters.misses (h.machine.caches.filter Cache.isTop)
      < wordLimit := by
    rw [hmissed]
    exact (Nat.zero_add _).trans_lt (hle.trans_lt hbounded)
  exact (Cache.misses_foldl _ _ hlt).trans ((Nat.zero_add _).trans hmissed)

end Tracked

end Hierarchy

namespace Session

variable {p : Plan} {s : Session}

/-- The counters agree with what the core has issued and with what it has learned. -/
def Agrees (s : Session) : Prop :=
  s.hierarchy.Agrees s.issued.length (s.completions.countP Completion.miss)

theorem Kept.length_issued (h : s.Kept p) (hidle : s.hierarchy.isIdle = true) :
    s.issued.length = s.completions.length := by
  have hlength := h.custody.issued.length_eq
  rwa [Hierarchy.ids_of_isIdle hidle, List.nil_append, List.length_map, List.length_map] at hlength

theorem Kept.agrees (h : s.Kept p) (hidle : s.hierarchy.isIdle = true) : s.Agrees := by
  obtain ⟨o, hshows, -⟩ := h.shows
  have hagrees := hshows.tracked.agrees (h := s.hierarchy.behind s.collected) hidle
  rw [Agrees, h.length_issued hidle]
  exact hagrees

end Session

end CacheHierarchy
