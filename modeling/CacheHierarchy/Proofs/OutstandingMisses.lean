import CacheHierarchy.Proofs.Execution.Partway

/-!
# Outstanding misses

A first-level cache waits for a line once. No two outstanding accesses have the same mark, and while
the request of a miss is on its way the line is not resident in the cache that missed. So one demand
request at most is on its way for a line and a first-level cache, and its fill does not find the
line installed.

All of this also holds between the stages of a cycle. An access stays in the table until the end of
the cycle in which it was filled, and the line can be given up again in the meantime; its request is
in no queue any more by then.
-/

namespace CacheHierarchy

def Cache.requests (c : Cache) : List Request :=
  c.lookups.items ++ c.fills.items ++ c.sends.items ++ c.writeBacks.items

/-- The requests in the queues of a cache that have been looked up in the first level. -/
def Cache.onward (c : Cache) : List Request :=
  (if c.above = .core then [] else c.lookups.items) ++ c.fills.items ++ c.sends.items ++
    c.writeBacks.items

namespace Machine

def requests (m : Machine) : List Request :=
  m.caches.flatMap Cache.requests ++ m.memory.queue.items

def onward (m : Machine) : List Request :=
  m.caches.flatMap Cache.onward ++ m.memory.queue.items

end Machine

/-- Every first-level cache waits for a line once, and for no line that it holds. -/
structure Hierarchy.MissesApart (h : Hierarchy) : Prop where
  /-- No two outstanding accesses have the same mark. -/
  marks : (h.machine.outstanding.entries.filterMap OutstandingAccess.mark).Nodup
  /-- While the request of a miss is in a queue, the line is not resident in the cache that
  missed. -/
  absent : ∀ e ∈ h.machine.outstanding.entries, ∀ k, e.mark = some k →
    ∀ r ∈ h.machine.requests, r.kind.isDemand = true → r.id = e.id →
      ∃ c, h.machine.caches[k.owner]? = some c ∧
        ∀ addr, c.tags.geometry.lineOf addr = k.line → c.tags.contains addr = .ok false
  /-- At most one demand request for a line is past the first-level cache that it entered. -/
  single : ∀ i c, h.machine.caches[i]? = some c → c.above = .core → ∀ line,
    h.machine.onward.countP (fun r => r.kind.isDemand ∧ h.topology.entryFor? r.kind = some i ∧
      c.tags.geometry.lineOf r.addr = line) ≤ 1
  /-- A fill does not find its line in a first-level cache. -/
  fills : ∀ c ∈ h.machine.caches, c.above = .core → ∀ r ∈ c.fills.items,
    c.tags.contains r.addr = .ok false

theorem Orderly.nodup_marks {p : Plan} {o : Overview} (h : Orderly p o) :
    (o.outstanding.entries.filterMap OutstandingAccess.mark).Nodup := by
  have hids : o.outstanding.entries.Pairwise fun e e' => e.id ≠ e'.id :=
    List.pairwise_map.1 h.nodup
  refine List.pairwise_filterMap.2 (hids.imp_of_mem fun he he' hne k hk k' hk' heq => ?_)
  subst heq
  exact hne (h.marks _ he _ he' k hk hk')

/-- One demand request at most has missed on a line in a first-level cache. -/
theorem Orderly.countP_missed_le_one {p : Plan} {o : Overview} (h : Orderly p o) (i line : Nat) :
    o.traffic.countP (fun x => x.2.kind.isDemand = true ∧ x.2.isMiss = true ∧
      p.topology.entryFor? x.2.kind = some i ∧ p.line i x.2.addr = line) ≤ 1 := by
  by_cases hnone : ∀ x ∈ o.traffic, ¬(x.2.kind.isDemand = true ∧ x.2.isMiss = true ∧
      p.topology.entryFor? x.2.kind = some i ∧ p.line i x.2.addr = line)
  · rw [Multiset.countP_eq_zero.2 hnone]
    exact Nat.zero_le 1
  · push Not at hnone
    obtain ⟨x, hx, hdemand, hmiss, hentry, hline⟩ := hnone
    obtain ⟨rest, ht⟩ := Multiset.exists_cons_of_mem hx
    have hrest : ∀ y ∈ rest, ¬(y.2.kind.isDemand = true ∧ y.2.isMiss = true ∧
        p.topology.entryFor? y.2.kind = some i ∧ p.line i y.2.addr = line) := by
      rintro y hy ⟨hydemand, hymiss, hyentry, hyline⟩
      exact h.line_ne ht hdemand hmiss hentry hy hydemand hymiss hyentry (hyline.trans hline.symm)
    rw [ht, Multiset.countP_cons_of_pos _ ⟨hdemand, hmiss, hentry, hline⟩,
      Multiset.countP_eq_zero.2 hrest]

namespace Machine

variable {p : Plan} {m : Machine}

theorem map_snd_at (s : Spot) (l : List Request) : (l.map fun r => (s, r)).map Prod.snd = l := by
  rw [List.map_map]
  exact List.map_id l

theorem map_snd_queued (k : Nat) (caches : List Cache) :
    (queued k caches).map Prod.snd = (caches.flatMap Cache.requests : List Request) := by
  induction caches generalizing k with
  | nil => rfl
  | cons c rest ih =>
    simp only [queued, Cache.traffic, Cache.requests, Multiset.map_add, ih,
      Multiset.map_coe, map_snd_at, Multiset.coe_add, List.map_append, List.flatMap_cons,
      List.append_assoc]

theorem map_snd_traffic (m : Machine) :
    m.traffic.map Prod.snd = (m.requests ++ m.finished : List Request) := by
  simp only [traffic, requests, Multiset.map_add, map_snd_queued, Multiset.map_coe, List.map_append,
    map_snd_at, Multiset.coe_add, List.append_assoc]

theorem onward_sublist (m : Machine) : m.onward.Sublist m.requests := by
  refine List.Sublist.append ?_ (List.Sublist.refl _)
  have hcache : ∀ c : Cache, c.onward.Sublist c.requests := by
    intro c
    unfold Cache.onward Cache.requests
    split
    · simp [List.append_assoc]
    · exact List.Sublist.refl _
  induction m.caches with
  | nil => exact List.Sublist.refl _
  | cons c rest ih => exact (hcache c).append ih

/-- The requests that are past the first look-up are in traffic. -/
theorem countP_onward_le (m : Machine) (P : Request → Prop) [DecidablePred P] :
    m.onward.countP (fun r => P r) ≤ m.traffic.countP fun x => P x.2 := by
  calc m.onward.countP (fun r => P r)
    _ ≤ m.requests.countP (fun r => P r) := m.onward_sublist.countP_le
    _ ≤ (m.requests ++ m.finished).countP (fun r => P r) :=
      (List.sublist_append_left ..).countP_le
    _ = (m.traffic.map Prod.snd).countP P := by rw [map_snd_traffic, Multiset.coe_countP]
    _ = m.traffic.countP fun x => P x.2 := by
      rw [Multiset.countP_map, Multiset.countP_eq_card_filter]

theorem exists_spot_of_mem_requests {r : Request} (hr : r ∈ m.requests) :
    ∃ s, (s, r) ∈ m.traffic ∧ s ≠ .finished := by
  rcases List.mem_append.1 hr with hr | hr
  · obtain ⟨c, hc, hr⟩ := List.mem_flatMap.1 hr
    obtain ⟨i, hi⟩ := List.mem_iff_getElem?.1 hc
    have hmem : ∀ s, (s, r) ∈ c.traffic i → (s, r) ∈ m.traffic := fun s => mem_traffic_of_cache hi
    simp only [Cache.requests, List.mem_append] at hr
    rcases hr with ((hr | hr) | hr) | hr
    · exact ⟨.lookups i, hmem _ ((mem_traffic c).2 (by simp [hr])), Spot.noConfusion⟩
    · exact ⟨.fills i, hmem _ ((mem_traffic c).2 (by simp [hr])), Spot.noConfusion⟩
    · exact ⟨.sends i, hmem _ ((mem_traffic c).2 (by simp [hr])), Spot.noConfusion⟩
    · exact ⟨.writeBacks i, hmem _ ((mem_traffic c).2 (by simp [hr])), Spot.noConfusion⟩
  · exact ⟨.memory, by simp [traffic, hr], Spot.noConfusion⟩

/-- A request that is past the first look-up is in traffic, and in no look-up queue but that of the
base. -/
theorem exists_spot_of_mem_onward (h : m.Sound p) {r : Request} (hr : r ∈ m.onward) :
    ∃ s, (s, r) ∈ m.traffic ∧ s ≠ .finished ∧ ∀ i, s = .lookups i → p.topology.base? = some i := by
  rcases List.mem_append.1 hr with hr | hr
  · obtain ⟨c, hc, hr⟩ := List.mem_flatMap.1 hr
    obtain ⟨i, hi⟩ := List.mem_iff_getElem?.1 hc
    have hmem : ∀ s, (s, r) ∈ c.traffic i → (s, r) ∈ m.traffic := fun s => mem_traffic_of_cache hi
    simp only [Cache.onward, List.mem_append] at hr
    rcases hr with ((hr | hr) | hr) | hr
    · split at hr
      · cases hr
      · rename_i habove
        have hbase : p.topology.base? = some i := by
          by_contra hne
          exact habove ((h.caches i c hi).above.trans (if_neg hne))
        refine ⟨.lookups i, hmem _ ((mem_traffic c).2 (.inl ⟨rfl, hr⟩)), Spot.noConfusion, ?_⟩
        rintro _ ⟨⟩
        exact hbase
    · exact ⟨.fills i, hmem _ ((mem_traffic c).2 (by simp [hr])), by simp⟩
    · exact ⟨.sends i, hmem _ ((mem_traffic c).2 (by simp [hr])), by simp⟩
    · exact ⟨.writeBacks i, hmem _ ((mem_traffic c).2 (by simp [hr])), by simp⟩
  · exact ⟨.memory, by simp [traffic, hr], by simp⟩

/-- A demand request that is past the first look-up has missed there. -/
theorem isMiss_of_mem_onward (h : m.Sound p) (hlast : p.topology.last? ≠ none)
    (hfits : ∀ x ∈ m.traffic, p.Fits x.2 x.1) {r : Request} (hr : r ∈ m.onward)
    (hdemand : r.kind.isDemand = true) : r.isMiss = true := by
  obtain ⟨s, hs, hne, hbase⟩ := exists_spot_of_mem_onward h hr
  have hfits := hfits _ hs
  cases s with
  | lookups i => exact hfits.lookups_base (hbase i rfl)
  | fills i => exact hfits.fills_isMiss hdemand
  | sends i => exact hfits.sends_isMiss hdemand
  | writeBacks i => exact absurd hfits.1 (Request.ne_writeBack hdemand)
  | memory =>
    rcases hfits with ⟨-, hmiss⟩ | ⟨hkind, -⟩
    · exact hmiss.2 hlast
    · exact absurd hkind (Request.ne_writeBack hdemand)
  | finished => exact absurd rfl hne

theorem Sound.mem_tops (h : m.Sound p) {i : Nat} {c : Cache} (hc : m.caches[i]? = some c)
    (habove : c.above = .core) : i ∈ p.topology.tops := by
  refine Topology.mem_tops_of_above ((h.caches i c hc).above.symm.trans habove) ?_
  rw [← h.length]
  exact (List.getElem?_eq_some_iff.1 hc).1

end Machine

namespace Hierarchy

variable {p : Plan} {h : Hierarchy}

theorem Tracked.contains_eq_false (h' : h.Tracked p) {i addr : Nat} {c : Cache}
    (hc : h.machine.caches[i]? = some c)
    (hline : (h.machine.overview { now := h.cycle, completions := h.completions }).lines i
      (p.line i addr) = none) : c.tags.contains addr = .ok false := by
  have hsound := h'.tracks.sound.caches i c hc
  rw [Machine.lines_overview hc] at hline
  rw [hsound.tags.contains_eq, hsound.line_eq, hline, Option.isSome_none]

theorem Tracked.missesApart (h' : h.Tracked p) : h.MissesApart := by
  have hsound := h'.tracks.sound
  have horderly := h'.tracks.reach.orderly
  have htraffic := traffic_overview h
  refine ⟨horderly.nodup_marks, fun e he k hk r hr hdemand hid => ?_, ?_, ?_⟩
  · obtain ⟨s, hs, hne⟩ := Machine.exists_spot_of_mem_requests hr
    rw [← htraffic] at hs
    have hmark : e.mark = some ⟨k.owner, k.line⟩ := hk
    obtain ⟨hmiss, hentry, hline⟩ :=
      (horderly.describes _ hs hdemand e he hid.symm).of_mark hmark
    have habsent := horderly.absent _ hs hne hdemand hmiss k.owner hentry
    obtain ⟨c, hc, hcsound⟩ := hsound.exists_cache
      (Topology.lt_size_of_mem_tops (Topology.mem_tops_of_entryFor? hentry))
    refine ⟨c, hc, fun addr haddr => h'.contains_eq_false hc ?_⟩
    rw [hcsound.line_eq] at haddr
    rw [haddr, ← hline]
    exact habsent
  · intro i c hc habove line
    have hlast := Topology.last?_ne_none_of_mem_tops (hsound.mem_tops hc habove)
    have hle := (h.machine.countP_onward_le fun r => r.kind.isDemand = true ∧ r.isMiss = true ∧
      p.topology.entryFor? r.kind = some i ∧ p.line i r.addr = line).trans
        (htraffic ▸ horderly.countP_missed_le_one i line)
    refine Eq.trans_le (List.countP_congr fun r hr => ?_) hle
    simp only [decide_eq_true_eq, (hsound.caches i c hc).line_eq, h'.topology]
    exact and_congr_right fun hdemand =>
      (and_iff_right (Machine.isMiss_of_mem_onward hsound hlast (fun _ => h'.fits) hr hdemand)).symm
  · intro c hc habove r hr
    obtain ⟨i, hi⟩ := List.mem_iff_getElem?.1 hc
    have hmem : (.fills i, r) ∈ h.machine.traffic :=
      Machine.mem_traffic_of_cache hi ((mem_traffic c).2 (.inr (.inl ⟨rfl, hr⟩)))
    obtain ⟨hdemand, hentry, hmiss⟩ := (h'.fits hmem).fills_top (hsound.mem_tops hi habove)
    rw [← htraffic] at hmem
    exact h'.contains_eq_false hi (horderly.absent _ hmem Spot.noConfusion hdemand hmiss i hentry)

/-- Wherever a run of a well-formed configuration is left, between two stages of a cycle or between
two cycles, its misses are apart. In particular no fill ever finds its line resident: the only
faults are an overflow, and a write-back that misses at a second level whose lines are not those of
the first. -/
theorem run_keeps_misses_apart {c : HierarchyConfig} (hvalid : c.validate = .ok ())
    (hsized : c.Sized) (commands : List Command) (n : Nat) :
    ∃ start, ofConfig c = .ok start ∧ Ends (fun _ h => h.MissesApart)
      (fun fault h => fault = .sumOverflow ∧ h.Exhausted ∨
        ¬c.Aligned ∧ ∃ array addr, fault = .writeBackMissed array addr)
      (runInto commands n start) := by
  obtain ⟨start, p, hstart, -, hends⟩ := exists_safe_stop hvalid hsized commands n
  exact ⟨start, hstart, hends.mono (fun _ _ htracked => htracked.missesApart) fun _ _ => id⟩

/-- Both sides miss on one line, a read is merged into the write, and the run is left inside a
cycle. -/
theorem run_keeps_misses_apart_narrow :
    HierarchyConfig.narrow.validate = .ok () ∧ HierarchyConfig.narrow.Sized ∧
      ∃ start, ofConfig .narrow = .ok start ∧ Ends (fun _ h => h.MissesApart)
        (fun fault h => fault = .sumOverflow ∧ h.Exhausted ∨
          ¬HierarchyConfig.narrow.Aligned ∧ ∃ array addr, fault = .writeBackMissed array addr)
        (runInto (.access 0 .instFetch (by decide) rfl :: .access 4 .write (by decide) rfl ::
          .access 8 .read (by decide) rfl :: List.replicate 8 .cycle) 12 start) :=
  ⟨rfl, by decide, run_keeps_misses_apart rfl (by decide) _ 12⟩

end Hierarchy

end CacheHierarchy
