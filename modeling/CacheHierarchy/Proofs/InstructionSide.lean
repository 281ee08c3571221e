import CacheHierarchy.Proofs.OutstandingMisses

/-!
# The instruction side is never written

In a split first level only instruction fetches enter the instruction cache, and only instruction
fetches are merged into its misses. Its fills are routed back by the kind of their request, and are
serviced as fetches whatever the data side does with the same line at the same time. So the cache
holds no dirty line, gives none up and makes no write-back, and the checks that stand for this do
not fire.
-/

namespace CacheHierarchy

/-- Nothing was written here, and nothing dirty was given up. -/
structure Counters.Spotless (c : Counters) : Prop where
  writes : c.writes = 0
  writeBacks : c.writeBacks = 0
  dirtyBackInvalidations : c.dirtyBackInvalidations = 0

namespace Counters.Spotless

variable {c : Counters} (h : c.Spotless)

include h

theorem countLookup (hit : Bool) : (c.countLookup hit false).Spotless :=
  ⟨h.writes, h.writeBacks, h.dirtyBackInvalidations⟩

theorem countBackInvalidation : (c.countBackInvalidation false).Spotless :=
  ⟨h.writes, h.writeBacks, h.dirtyBackInvalidations⟩

end Counters.Spotless

def Overview.Spotless (p : Plan) (o : Overview) : Prop :=
  ∀ i, p.topology.side i = some .instruction → (o.counters i).Spotless

namespace Overview.Spotless

variable {p : Plan} {o o' : Overview}

theorem update (h : o.Spotless p) {i : Nat} {c : Counters}
    (hc : p.topology.side i = some .instruction → (o.counters i).Spotless → c.Spotless) :
    ∀ j, p.topology.side j = some .instruction →
      (Function.update o.counters i c j).Spotless := by
  intro j hside
  by_cases hj : j = i
  · subst hj
    rw [Function.update_self]
    exact hc hside (h j hside)
  · rw [Function.update_of_ne hj]
    exact h j hside

theorem step (h : o.Spotless p) (ho : Orderly p o) (hstep : Step p o o') : o'.Spotless p := by
  have hread : ∀ {i : Nat} {r : Request} {rest : Multiset (Spot × Request)},
      o.traffic = (.lookups i, r) ::ₘ rest → i ∈ p.topology.tops →
      p.topology.side i = some .instruction → r.kind.isWrite = false := by
    intro i r rest ht hi hside
    have hmem := mem_of_eq_cons ht
    obtain ⟨hdemand, hentry, -⟩ := (ho.admits _ hmem).fits.lookups_top hi
    exact (ho.not_isWrite_of_side hmem hdemand hentry hside).1
  cases hstep with
  | note | issue | move | arrive | pay | absorb | memoryAbsorb | recalled | overtake | repaired
  | retire | tick | newCycle => exact h
  | lookUp _ _ _ _ hb | place _ hb | divert _ _ hb =>
    exact h.update fun hside => absurd hside (Topology.side_base hb)
  | hit ht hi | merge ht hi | miss ht hi =>
    refine h.update fun hside hc => ?_
    rw [hread ht hi hside]
    exact hc.countLookup _
  | @install i r rest after victim ht hi hbypass hdebt hrepair hline =>
    refine h.update fun hside hc => ?_
    rw [if_neg]
    · exact hc
    · intro hdirty
      obtain ⟨⟨v, dirty⟩, hv, rfl⟩ := (Option.any_eq_true _ _).1 hdirty
      exact ho.clean i hside v (hline.victim_eq hv).1
  | bypass ht hi =>
    refine h.update fun hside hc => ?_
    have hmem := mem_of_eq_cons ht
    obtain ⟨hdemand, hentry, -⟩ := (ho.admits _ hmem).fits.fills_top hi
    rw [(ho.not_isWrite_of_side hmem hdemand hentry hside).2]
    exact hc.countBackInvalidation
  | @drop b i ρ dirty hb hi hdebt hrepair hline =>
    refine h.update fun hside hc => ?_
    cases dirty with
    | false => exact hc.countBackInvalidation
    | true => exact absurd hline (ho.clean i hside _)

end Overview.Spotless

/-- An instruction cache of its own counts no write and nothing dirty. -/
theorem Reach.spotless {p : Plan} {o : Overview} (h : Reach p o) : o.Spotless p :=
  h.invariant (Overview.Spotless p) (fun _ _ => ⟨rfl, rfl, rfl⟩) fun _ _ hreach ho hstep =>
    ho.step hreach.orderly hstep

/-- A cache that nothing was ever written to. -/
structure Cache.Spotless (c : Cache) : Prop where
  /-- No line is dirty, in any way of any set. -/
  lines : ∀ i way line, (c.tags.setAt i).line? way = some line → line.dirty = false
  /-- No write-back is in any queue. -/
  requests : ∀ r ∈ c.requests, r.kind ≠ .writeBack
  counters : c.tags.counters.Spotless

namespace Hierarchy

variable {p : Plan} {h : Hierarchy}

theorem Tracked.spotless (h' : h.Tracked p) {i : Nat} {c : Cache}
    (hc : h.machine.caches[i]? = some c) (hi : i ∈ p.topology.tops)
    (hside : p.topology.side i = some .instruction) : c.Spotless := by
  have hsound := h'.tracks.sound.caches i c hc
  have hreach := h'.tracks.reach
  refine ⟨fun set way line hline => ?_, fun r hr hkind => ?_, ?_⟩
  · have hclean := hreach.orderly.clean i hside (line.tag * c.tags.geometry.numSets + set)
    rw [Machine.lines_overview hc, (hsound.tags.evictionOf_eq hline).1, ne_eq,
      Option.some.injEq, Bool.not_eq_true] at hclean
    exact hclean
  · have hfits : ∀ s, (s, r) ∈ c.traffic i → p.Fits r s := fun s hs =>
      h'.fits (Machine.mem_traffic_of_cache hc hs)
    have hdemand := Request.not_isDemand hkind
    simp only [Cache.requests, List.mem_append] at hr
    rcases hr with ((hr | hr) | hr) | hr
    · exact hdemand (hfits (.lookups i) ((mem_traffic c).2 (by simp [hr]))).1
    · exact hdemand ((hfits (.fills i) ((mem_traffic c).2 (by simp [hr]))).fills_top hi).1
    · rcases hfits (.sends i) ((mem_traffic c).2 (by simp [hr])) with hpass | ⟨-, hdirties⟩
      · exact hdemand hpass.isDemand
      · exact hdirties.side_ne hside
    · exact (hfits (.writeBacks i) ((mem_traffic c).2 (by simp [hr]))).2.side_ne hside
  · have hcounters := hreach.spotless i hside
    rwa [Machine.counters_overview hc] at hcounters

/-- Wherever a run of a split hierarchy is left, between two stages of a cycle or between two
cycles, nothing was ever written to the instruction cache. In particular the cache never evicts a
dirty line, and no back-invalidation finds a dirty line in it: the only faults are an overflow, and
a write-back of the data side that misses at a second level whose lines are not those of the
first. -/
theorem run_keeps_instructions_clean {c : HierarchyConfig} (hvalid : c.validate = .ok ())
    (hsized : c.Sized) (hsplit : c.topology = .splitL1) (commands : List Command) (n : Nat) :
    ∃ start, ofConfig c = .ok start ∧
      Ends (fun _ h => ∃ instructions, h.machine.caches[0]? = some instructions ∧
          instructions.side = some .instruction ∧ instructions.Spotless)
        (fun fault h => fault = .sumOverflow ∧ h.Exhausted ∨
          ¬c.Aligned ∧ ∃ array addr, fault = .writeBackMissed array addr)
        (runInto commands n start) := by
  obtain ⟨start, p, hstart, ht, hends⟩ := exists_safe_stop hvalid hsized commands n
  rw [hsplit] at ht
  have htop : 0 ∈ p.topology.tops := by rw [ht]; decide
  have hside : p.topology.side 0 = some .instruction := by rw [ht]; decide
  refine ⟨start, hstart, hends.mono (fun _ h htracked => ?_) fun _ _ => id⟩
  obtain ⟨d, hd, hdsound⟩ :=
    htracked.tracks.sound.exists_cache (Topology.lt_size_of_mem_tops htop)
  exact ⟨d, hd, hdsound.side.trans hside, htracked.spotless hd htop hside⟩

theorem run_keeps_instructions_clean_narrow :
    HierarchyConfig.narrow.validate = .ok () ∧ HierarchyConfig.narrow.Sized ∧
      HierarchyConfig.narrow.topology = .splitL1 ∧
      ∃ start, ofConfig .narrow = .ok start ∧
        Ends (fun _ h => ∃ instructions, h.machine.caches[0]? = some instructions ∧
            instructions.side = some .instruction ∧ instructions.Spotless)
          (fun fault h => fault = .sumOverflow ∧ h.Exhausted ∨
            ¬HierarchyConfig.narrow.Aligned ∧ ∃ array addr, fault = .writeBackMissed array addr)
          (runInto Command.mixed 2 start) :=
  ⟨rfl, by decide, rfl, run_keeps_instructions_clean rfl (by decide) rfl _ 2⟩

end Hierarchy

end CacheHierarchy
