import CacheHierarchy.Proofs.Safety

/-!
# Inclusion of the first level

Between two commands no repair is under way, so the second level holds every line that a cache
above it holds. It also holds the lines that are on their way: those of the fills that wait above
and are to install something, and those of the write-backs that it has not taken in yet.
-/

namespace CacheHierarchy

def Cache.Holds (c : Cache) (addr : Nat) : Prop := c.tags.contains addr = .ok true

/-- The lines of a cache, and those that are on their way into it or out of it, are held below. -/
structure Cache.IncludedIn (top base : Cache) : Prop where
  resident : ∀ addr, top.Holds addr → base.Holds addr
  fill : ∀ r ∈ top.fills.items, r.kind.isDemand = true → r.bypass = false → base.Holds r.addr
  writeBack : ∀ r, r ∈ top.writeBacks.items ∨ r ∈ top.sends.items → r.kind = .writeBack →
    base.Holds r.addr

namespace Hierarchy

/-- Cache `b` includes all first-level caches, and the write-backs that have arrived there. -/
def IncludedIn (h : Hierarchy) (b : Nat) : Prop :=
  ∃ base, h.machine.caches[b]? = some base ∧
    (∀ i ∈ h.topology.tops, ∃ top, h.machine.caches[i]? = some top ∧ top.IncludedIn base) ∧
    ∀ r ∈ base.fills.items, r.kind = .writeBack → base.Holds r.addr

end Hierarchy

theorem Cache.Sound.holds_iff {p : Plan} {i : Nat} {c : Cache} (h : c.Sound p i) (addr : Nat) :
    c.Holds addr ↔ c.tags.lines (p.line i addr) ≠ none := by
  rw [Cache.Holds, h.tags.contains_eq, h.line_eq, Except.ok.injEq, Option.isSome_iff_ne_none]

namespace Machine

variable {p : Plan} {lineSize i b now : Nat} {completions : List Completion} {m : Machine}
  {top base : Cache}

theorem holds_of_writeBack (h : Tracks p { now, completions } m) (huniform : p.Uniform lineSize)
    (hb : p.topology.base? = some b) (hbase : m.caches[b]? = some base) {s : Spot} {r : Request}
    (hr : (s, r) ∈ m.traffic) (hkind : r.kind = .writeBack)
    (hs : p.receiver? s = some (.cache b)) : base.Holds r.addr := by
  rw [(h.sound.caches b base hbase).holds_iff, ← lines_overview hbase (x := { now, completions })]
  have hmem : (s, r) ∈ (m.overview { now, completions }).traffic := by
    simpa only [overview, add_zero] using hr
  exact ((h.reach.inclusive hb).writeBacks (huniform.aligned hb) s r hmem hkind hs).ne_none rfl

/-- The base includes each cache above. -/
theorem includedIn_base (h : Tracks p { now, completions } m) (huniform : p.Uniform lineSize)
    (hb : p.topology.base? = some b) (hbase : m.caches[b]? = some base)
    (hi : i ∈ p.topology.tops) (htop : m.caches[i]? = some top) : top.IncludedIn base := by
  have hmatches : p.Matches i b :=
    (huniform i (Topology.lt_size_of_mem_tops hi)).trans
      (huniform b (Topology.lt_size_of_base? hb)).symm
  have hinclusive := h.reach.inclusive hb
  have hreceiver : p.topology.below i = .cache b := Topology.below_top hb hi
  refine ⟨fun addr haddr => ?_, fun r hr hdemand hbypass => ?_, fun r hr hkind => ?_⟩
  · rw [(h.sound.caches i top htop).holds_iff, ← lines_overview htop (x := { now, completions }),
      hmatches.line_eq] at haddr
    rw [(h.sound.caches b base hbase).holds_iff,
      ← lines_overview hbase (x := { now, completions })]
    exact (hinclusive.lines i hi hmatches _ haddr).ne_none rfl
  · have hmem : (.fills i, r) ∈ (m.overview { now, completions }).traffic := by
      rw [overview, add_zero]
      exact mem_traffic_of_cache htop ((mem_traffic top).2 (.inr (.inl ⟨rfl, hr⟩)))
    rw [(h.sound.caches b base hbase).holds_iff,
      ← lines_overview hbase (x := { now, completions })]
    exact (hinclusive.fills i hi hmatches r hmem hbypass).ne_none rfl
  · rcases hr with hr | hr
    · refine holds_of_writeBack h huniform hb hbase (s := .writeBacks i) ?_ hkind ?_
      · exact mem_traffic_of_cache htop ((mem_traffic top).2 (.inr (.inr (.inr ⟨rfl, hr⟩))))
      · rw [Plan.receiver?, hreceiver]
        rfl
    · refine holds_of_writeBack h huniform hb hbase (s := .sends i) ?_ hkind ?_
      · exact mem_traffic_of_cache htop ((mem_traffic top).2 (.inr (.inr (.inl ⟨rfl, hr⟩))))
      · rw [Plan.receiver?, hreceiver]
        rfl

end Machine

namespace Hierarchy

theorem Tracked.includedIn {p : Plan} {lineSize b : Nat} {h : Hierarchy} (h' : h.Tracked p)
    (huniform : p.Uniform lineSize) (hb : p.topology.base? = some b) : h.IncludedIn b := by
  obtain ⟨htopology, htracks⟩ := h'
  obtain ⟨base, hbase, -⟩ := htracks.sound.exists_cache (Topology.lt_size_of_base? hb)
  refine ⟨base, hbase, fun i hi => ?_, fun r hr hkind => ?_⟩
  · rw [htopology] at hi
    obtain ⟨top, htop, -⟩ := htracks.sound.exists_cache (Topology.lt_size_of_mem_tops hi)
    exact ⟨top, htop, Machine.includedIn_base htracks huniform hb hbase hi htop⟩
  · refine Machine.holds_of_writeBack htracks huniform hb hbase (s := .fills b) ?_ hkind rfl
    exact Machine.mem_traffic_of_cache hbase ((mem_traffic base).2 (.inr (.inl ⟨rfl, hr⟩)))

/-- Where there are two levels with lines of one size, every run keeps the first level included in
the second, or ends in an overflow. -/
theorem run_keeps_inclusion {c : HierarchyConfig} {lineSize b : Nat}
    (hvalid : c.validate = .ok ()) (hsized : c.Sized) (huniform : c.Uniform lineSize)
    (hb : c.topology.base? = some b) (commands : List Command) :
    ∃ start, ofConfig c = .ok start ∧ Ends (fun _ h => h.IncludedIn b)
      (fun fault h => fault = .sumOverflow ∧ h.Exhausted) (run commands start) := by
  obtain ⟨start, p, hstart, ht, hplan, hends⟩ :=
    exists_uniform_run hvalid hsized huniform commands
  refine ⟨start, hstart, hends.mono (fun _ h htracked => ?_) fun _ _ => id⟩
  exact htracked.includedIn hplan (ht ▸ hb)

theorem run_keeps_inclusion_narrow :
    HierarchyConfig.narrow.validate = .ok () ∧ HierarchyConfig.narrow.Sized ∧
      HierarchyConfig.narrow.Uniform 32 ∧ HierarchyConfig.narrow.topology.base? = some 2 ∧
      ∃ start, ofConfig .narrow = .ok start ∧ Ends (fun _ h => h.IncludedIn 2)
        (fun fault h => fault = .sumOverflow ∧ h.Exhausted)
        (run Command.mixed start) :=
  ⟨rfl, by decide, by decide, rfl,
    run_keeps_inclusion rfl (by decide) (show HierarchyConfig.narrow.Uniform 32 by decide) rfl _⟩

end Hierarchy

end CacheHierarchy
