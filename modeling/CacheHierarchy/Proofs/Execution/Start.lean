import CacheHierarchy.Proofs.Execution.Runs
import CacheHierarchy.Proofs.Levels

/-!
# The start of a run

A well-formed configuration whose sizes are words gives a hierarchy, which is tracked: nothing is
resident, under way, expected or counted yet.
-/

namespace CacheHierarchy

/-- The sizes of the levels in use are words. -/
def HierarchyConfig.Sized (c : HierarchyConfig) : Prop :=
  ∀ level ∈ c.levels, level.2.size < wordLimit

instance (c : HierarchyConfig) : Decidable c.Sized :=
  inferInstanceAs (Decidable (∀ level ∈ c.levels, level.2.size < wordLimit))

/-- The levels in use have lines of one size. -/
def HierarchyConfig.Uniform (c : HierarchyConfig) (lineSize : Nat) : Prop :=
  ∀ level ∈ c.levels, level.2.lineSize = lineSize

instance (c : HierarchyConfig) (lineSize : Nat) : Decidable (c.Uniform lineSize) :=
  inferInstanceAs (Decidable (∀ level ∈ c.levels, level.2.lineSize = lineSize))

theorem HierarchyConfig.length_levels (c : HierarchyConfig) :
    c.levels.length = c.topology.size := by
  unfold levels
  cases c.topology <;> rfl

theorem HierarchyConfig.Uniform.plan {c : HierarchyConfig} {lineSize : Nat} {p : Plan}
    (h : c.Uniform lineSize) (ht : p.topology = c.topology)
    (hlines : ∀ i level, c.levels[i]? = some level → (p.geometry i).lineSize = level.2.lineSize) :
    p.Uniform lineSize := by
  intro i hi
  rw [ht, ← c.length_levels] at hi
  rw [hlines i _ (List.getElem?_eq_getElem hi)]
  exact h _ (List.getElem_mem hi)

/-- A split first level that holds more lines than the second level. -/
def HierarchyConfig.narrow : HierarchyConfig where
  topology := .splitL1
  l1i := { size := 64, assoc := 1, lineSize := 32, latency := 1 }
  l1d := { size := 128, assoc := 2, lineSize := 32, latency := 2 }
  l2 := { size := 64, assoc := 1, lineSize := 32, latency := 1 }
  memoryLatency := 3

def Command.low (addr : Nat) (kind : AccessKind) (hkind : kind.isDemand = true) : Command :=
  .access (addr % 256) kind (Nat.lt_trans (Nat.mod_lt _ (by decide)) (by decide)) hkind

open AccessKind in
/-- A write and a fetch that miss; once they are done a write that hits, a read that is served a
level below, two writes of lines that are kept in one set there, and a read that joins the second of
these. -/
def Command.mixed : List Command :=
  .low 0 .write isDemand_write :: .low 32 .instFetch isDemand_instFetch ::
    List.replicate 16 .cycle ++ .low 4 .write isDemand_write :: .low 36 .read isDemand_read ::
      .low 64 .write isDemand_write :: .low 128 .write isDemand_write ::
        .low 132 .read isDemand_read :: List.replicate 14 .cycle

theorem LevelConfig.geometry_of_tagArray {c : LevelConfig} {name : String} {t : TagArray}
    (h : c.tagArray name = .ok t) :
    t.geometry.numSets = c.size / (c.assoc * c.lineSize) ∧ t.geometry.assoc = c.assoc := by
  obtain ⟨numSets, hnumSets, h⟩ := exists_ok_of_bind h
  obtain ⟨setBytes, hmul, hdiv⟩ := exists_ok_of_bind hnumSets
  obtain ⟨-, rfl⟩ := Word.mul_eq_ok_iff.1 hmul
  obtain ⟨-, rfl⟩ := Word.div_eq_ok_iff.1 hdiv
  unfold TagArray.ofDimensions Geometry.ofDimensions at h
  split at h
  · cases h
  split at h
  · cases h
  split at h <;> cases h
  exact ⟨rfl, rfl⟩

theorem HierarchyConfig.tagArray_of_cache {level : LevelConfig} {name : String} {above : Above}
    {below : Below} {side : Option Side} {d : Cache}
    (h : HierarchyConfig.cache level name above below side = .ok d) :
    level.tagArray name = .ok d.tags := by
  unfold HierarchyConfig.cache at h
  cases htags : level.tagArray name with
  | error fault =>
    rw [htags] at h
    cases h
  | ok tags =>
    rw [htags] at h
    cases h
    rfl

theorem LevelConfig.exists_tagArray {c : LevelConfig} {level : String}
    (h : c.validate level = .ok ()) :
    ∃ g : Geometry, g.lineSize = c.lineSize ∧ g.numSets * g.lineSize ≤ c.size ∧
      ∀ name, c.tagArray name = .ok (TagArray.empty name g) := by
  obtain ⟨hwell, hlt⟩ := wellFormed_of_validate h
  exact ⟨hwell.geometry, rfl, hwell.span_le, hwell.tagArray_eq hlt⟩

def Cache.fresh (name : String) (g : Geometry) (latency : Nat) (above : Above) (below : Below)
    (side : Option Side) : Cache :=
  { tags := TagArray.empty name g, latency, above, below, side }

/-- Nothing has happened to a cache. -/
structure Cache.Untouched (c : Cache) : Prop where
  traffic : ∀ i, c.traffic i = 0
  lines : c.tags.lines = fun _ => none
  counters : c.tags.counters = {}
  expected : c.expected.ids = []

theorem Cache.untouched_fresh (name : String) (g : Geometry) (latency : Nat) (above : Above)
    (below : Below) (side : Option Side) : (fresh name g latency above below side).Untouched :=
  ⟨fun _ => rfl, TagArray.lines_empty name g, rfl, rfl⟩

namespace Machine

theorem queued_untouched {caches : List Cache} (h : ∀ c ∈ caches, c.Untouched) (k : Nat) :
    queued k caches = 0 := by
  induction caches generalizing k with
  | nil => rfl
  | cons c rest ih =>
    rw [queued, (h c List.mem_cons_self).traffic, zero_add]
    exact ih (fun d hd => h d (List.mem_cons_of_mem _ hd)) _

theorem view_untouched {α : Type} {m : Machine} {f : Cache → α} {absent : α}
    (h : ∀ c ∈ m.caches, f c = absent) : m.view f absent = fun _ => absent := by
  funext i
  unfold view
  cases hc : m.caches[i]? with
  | none => rfl
  | some c => exact h c (List.mem_of_getElem? hc)

theorem overview_untouched {m : Machine} (h : ∀ c ∈ m.caches, c.Untouched) {name : String}
    {latency : Nat} {above : Option Nat} {event : Event}
    (hm : m = { caches := m.caches, memory := { name, latency, above }, journal := [event] }) :
    m.overview { now := 0 } = { Overview.start with journal := [event] } := by
  have hlines : m.view (fun c => c.tags.lines) (fun _ => none) = fun _ _ => none :=
    view_untouched fun c hc => (h c hc).lines
  have hcounters : m.view (fun c => c.tags.counters) {} = fun _ => {} :=
    view_untouched fun c hc => (h c hc).counters
  have hids : m.view (fun c => (c.expected.ids : Multiset Nat)) 0 = fun _ => 0 :=
    view_untouched fun c hc => congrArg _ (h c hc).expected
  have hexpected : m.expectedAt = fun _ => 0 := by
    funext site
    cases site with
    | memory =>
      rw [hm]
      rfl
    | cache i => exact congrFun hids i
  have htraffic : m.traffic = 0 := by
    rw [traffic, queued_untouched h, hm]
    rfl
  rw [overview, hlines, hcounters, hexpected, htraffic, hm]
  rfl

end Machine

namespace Hierarchy

/-- What never changes in a hierarchy. -/
def plan (h : Hierarchy) : Plan where
  topology := h.topology
  geometry := h.machine.view (fun c => c.tags.geometry)
    ⟨1, 1, 1, Nat.one_pos, Nat.one_pos, Nat.one_pos⟩

theorem geometry_plan {h : Hierarchy} {i : Nat} {d : Cache} (hd : h.machine.caches[i]? = some d) :
    h.plan.geometry i = d.tags.geometry :=
  Machine.view_eq hd _ _

variable {c : HierarchyConfig}

theorem eq_ok_of_forM_eq_ok {ε γ : Type} {f : γ → Except ε PUnit} {l : List γ}
    (h : l.forM f = .ok ⟨⟩) : ∀ a ∈ l, f a = .ok ⟨⟩ := by
  induction l with
  | nil => exact fun a ha => absurd ha List.not_mem_nil
  | cons b rest ih =>
    obtain ⟨⟨⟩, hb, hrest⟩ := exists_ok_of_bind (x := f b) (f := fun _ => rest.forM f) h
    intro a ha
    rcases List.mem_cons.1 ha with rfl | ha
    · exact hb
    · exact ih hrest a ha

theorem HierarchyConfig.valid_of_mem (h : c.validate = .ok ()) :
    ∀ level ∈ c.levels, level.2.validate level.1 = .ok () :=
  eq_ok_of_forM_eq_ok h

theorem HierarchyConfig.cache_eq_ok {level : LevelConfig} {g : Geometry}
    (hg : ∀ name, level.tagArray name = .ok (TagArray.empty name g)) (name : String)
    (above : Above) (below : Below) (side : Option Side) :
    HierarchyConfig.cache level name above below side =
      .ok (Cache.fresh name g level.latency above below side) := by
  rw [HierarchyConfig.cache, hg]
  rfl

/-- The caches of a well-formed configuration are built as planned. -/
theorem exists_caches (hvalid : c.validate = .ok ()) (hsized : c.Sized) :
    ∃ caches, c.caches = .ok caches ∧ caches.length = c.topology.size ∧
      ∀ i d, caches[i]? = some d → ∃ name g latency, d = Cache.fresh name g latency
        (c.topology.above i) (c.topology.below i) (c.topology.side i) ∧
        g.numSets * g.lineSize < wordLimit ∧
        ∀ level, c.levels[i]? = some level → g.lineSize = level.2.lineSize := by
  have hvalid := HierarchyConfig.valid_of_mem hvalid
  have harray : ∀ level ∈ c.levels, ∃ g : Geometry, g.lineSize = level.2.lineSize ∧
      g.numSets * g.lineSize < wordLimit ∧
      ∀ name, level.2.tagArray name = .ok (TagArray.empty name g) := by
    intro level hlevel
    obtain ⟨g, hline, hspan, harray⟩ := LevelConfig.exists_tagArray (hvalid level hlevel)
    exact ⟨g, hline, Nat.lt_of_le_of_lt hspan (hsized level hlevel), harray⟩
  obtain ⟨topology, l1d, l1i, l2, latency⟩ := c
  cases topology with
  | dramOnly => exact ⟨[], rfl, rfl, fun i d hd => by cases hd⟩
  | singleLevel =>
    obtain ⟨g, hline, hspan, harray⟩ := harray ("l1d", l1d) (by simp [HierarchyConfig.levels])
    refine ⟨[Cache.fresh "L1D" g l1d.latency .core .memory none], ?_, rfl, ?_⟩
    · simp only [HierarchyConfig.caches, HierarchyConfig.cache_eq_ok harray]
      rfl
    · intro i d hd
      match i, hd with
      | 0, rfl => exact ⟨_, g, _, rfl, hspan, fun level hlevel => by cases hlevel; exact hline⟩
  | multiLevel =>
    obtain ⟨g₁, hline₁, hspan₁, harray₁⟩ := harray ("l1d", l1d) (by simp [HierarchyConfig.levels])
    obtain ⟨g₂, hline₂, hspan₂, harray₂⟩ := harray ("l2", l2) (by simp [HierarchyConfig.levels])
    refine ⟨[Cache.fresh "L1U" g₁ l1d.latency .core (.cache 1) none,
      Cache.fresh "L2" g₂ l2.latency (.caches (.both 0)) .memory none], ?_, rfl, ?_⟩
    · simp only [HierarchyConfig.caches, HierarchyConfig.cache_eq_ok harray₁,
        HierarchyConfig.cache_eq_ok harray₂]
      rfl
    · intro i d hd
      match i, hd with
      | 0, rfl => exact ⟨_, g₁, _, rfl, hspan₁, fun level hlevel => by cases hlevel; exact hline₁⟩
      | 1, rfl => exact ⟨_, g₂, _, rfl, hspan₂, fun level hlevel => by cases hlevel; exact hline₂⟩
  | splitL1 =>
    obtain ⟨g₀, hline₀, hspan₀, harray₀⟩ := harray ("l1i", l1i) (by simp [HierarchyConfig.levels])
    obtain ⟨g₁, hline₁, hspan₁, harray₁⟩ := harray ("l1d", l1d) (by simp [HierarchyConfig.levels])
    obtain ⟨g₂, hline₂, hspan₂, harray₂⟩ := harray ("l2", l2) (by simp [HierarchyConfig.levels])
    refine ⟨[Cache.fresh "L1I" g₀ l1i.latency .core (.cache 2) (some .instruction),
      Cache.fresh "L1D" g₁ l1d.latency .core (.cache 2) (some .data),
      Cache.fresh "L2" g₂ l2.latency (.caches { instruction := 0, data := 1 }) .memory none],
      ?_, rfl, ?_⟩
    · simp only [HierarchyConfig.caches, HierarchyConfig.cache_eq_ok harray₀,
        HierarchyConfig.cache_eq_ok harray₁, HierarchyConfig.cache_eq_ok harray₂]
      rfl
    · intro i d hd
      match i, hd with
      | 0, rfl => exact ⟨_, g₀, _, rfl, hspan₀, fun level hlevel => by cases hlevel; exact hline₀⟩
      | 1, rfl => exact ⟨_, g₁, _, rfl, hspan₁, fun level hlevel => by cases hlevel; exact hline₁⟩
      | 2, rfl => exact ⟨_, g₂, _, rfl, hspan₂, fun level hlevel => by cases hlevel; exact hline₂⟩

theorem ofConfig_eq_ok (hvalid : c.validate = .ok ()) {caches : List Cache}
    (hcaches : c.caches = .ok caches) :
    ofConfig c = .ok { topology := c.topology, machine := {
      caches, memory := c.memory, journal := [.assembled c.topology] } } := by
  simp only [ofConfig, hvalid, hcaches, bind, Except.bind]
  rfl

theorem exists_of_ofConfig_eq_ok {h : Hierarchy} (hstart : ofConfig c = .ok h) :
    ∃ caches, c.caches = .ok caches ∧ h = { topology := c.topology, machine := {
      caches, memory := c.memory, journal := [.assembled c.topology] } } := by
  obtain ⟨⟨⟩, -, hstart⟩ := exists_ok_of_bind hstart
  cases hcaches : c.caches with
  | error fault =>
    rw [hcaches] at hstart
    cases hstart
  | ok caches =>
    rw [hcaches] at hstart
    cases hstart
    exact ⟨caches, rfl, rfl⟩

theorem exists_fresh_of_ofConfig_eq_ok {h : Hierarchy} (hvalid : c.validate = .ok ())
    (hsized : c.Sized) (hstart : ofConfig c = .ok h) :
    h.cycle = 0 ∧ h.machine.journal = [.assembled c.topology] ∧
      ∀ i d, h.machine.caches[i]? = some d → ∃ name g latency, d = Cache.fresh name g latency
        (c.topology.above i) (c.topology.below i) (c.topology.side i) := by
  obtain ⟨caches, hcaches, rfl⟩ := exists_of_ofConfig_eq_ok hstart
  obtain ⟨caches', hcaches', -, hfresh⟩ := exists_caches hvalid hsized
  obtain rfl : caches = caches' := Except.ok.inj (hcaches.symm.trans hcaches')
  refine ⟨rfl, rfl, fun i d hd => ?_⟩
  obtain ⟨name, g, latency, hd, -⟩ := hfresh i d hd
  exact ⟨name, g, latency, hd⟩

theorem exists_base_of_ofConfig_eq_ok {h : Hierarchy} (hstart : ofConfig c = .ok h) {b : Nat}
    (hb : c.topology.base? = some b) :
    ∃ d, h.machine.caches[b]? = some d ∧ c.l2.tagArray "L2" = .ok d.tags := by
  obtain ⟨caches, hcaches, rfl⟩ := exists_of_ofConfig_eq_ok hstart
  unfold HierarchyConfig.caches at hcaches
  cases ht : c.topology with
  | dramOnly | singleLevel =>
    rw [ht] at hb
    cases hb
  | multiLevel =>
    rw [ht] at hb hcaches
    cases hb
    obtain ⟨l1, -, hcaches⟩ := exists_ok_of_bind hcaches
    obtain ⟨l2, hl2, hcaches⟩ := exists_ok_of_bind hcaches
    cases hcaches
    exact ⟨l2, rfl, HierarchyConfig.tagArray_of_cache hl2⟩
  | splitL1 =>
    rw [ht] at hb hcaches
    cases hb
    obtain ⟨l1i, -, hcaches⟩ := exists_ok_of_bind hcaches
    obtain ⟨l1d, -, hcaches⟩ := exists_ok_of_bind hcaches
    obtain ⟨l2, hl2, hcaches⟩ := exists_ok_of_bind hcaches
    cases hcaches
    exact ⟨l2, rfl, HierarchyConfig.tagArray_of_cache hl2⟩

/-- A well-formed configuration gives a hierarchy that is tracked. -/
theorem exists_start (hvalid : c.validate = .ok ()) (hsized : c.Sized) :
    ∃ h, ofConfig c = .ok h ∧ h.Tracked h.plan ∧ h.topology = c.topology ∧
      ∀ i level, c.levels[i]? = some level → (h.plan.geometry i).lineSize = level.2.lineSize := by
  obtain ⟨caches, hcaches, hlength, hfresh⟩ := exists_caches hvalid hsized
  refine ⟨_, ofConfig_eq_ok hvalid hcaches, ⟨rfl, ⟨⟨hlength, ?_, ?_⟩, ?_⟩⟩, rfl, ?_⟩
  · intro i d hd
    obtain ⟨name, g, latency, rfl, hspan, -⟩ := hfresh i d hd
    exact ⟨TagArray.empty_sound hspan, (geometry_plan hd).symm, rfl, rfl, rfl⟩
  · change c.memory.above = c.topology.last?
    unfold HierarchyConfig.memory
    cases c.topology <;> rfl
  · rw [Machine.overview_untouched ?_ rfl]
    · exact Reach.start.step (.note _ rfl (.inl rfl))
    · intro d hd
      obtain ⟨i, hi⟩ := List.mem_iff_getElem?.1 hd
      obtain ⟨name, g, latency, rfl, -⟩ := hfresh i d hi
      exact Cache.untouched_fresh _ _ _ _ _ _
  · intro i level hlevel
    have hlevels : c.levels.length = caches.length := by
      rw [hlength, HierarchyConfig.length_levels]
    have hlt : i < caches.length := hlevels ▸ (List.getElem?_eq_some_iff.1 hlevel).1
    obtain ⟨name, g, latency, hd, -, hline⟩ := hfresh i _ (List.getElem?_eq_getElem hlt)
    rw [geometry_plan (List.getElem?_eq_getElem hlt), hd]
    exact hline level hlevel

/-- Every run of a well-formed configuration keeps its hierarchy tracked, or ends in a fault that is
accounted for. -/
theorem exists_run (hvalid : c.validate = .ok ()) (hsized : c.Sized) (commands : List Command) :
    ∃ start p, ofConfig c = .ok start ∧ p.topology = c.topology ∧
      (∀ i level, c.levels[i]? = some level → (p.geometry i).lineSize = level.2.lineSize) ∧
      Ends (fun _ => Tracked p) (Fails p) (run commands start) := by
  obtain ⟨start, hstart, htracked, htopology, hlines⟩ := exists_start hvalid hsized
  exact ⟨start, start.plan, hstart, htopology, hlines, run_ends commands htracked⟩

/-- How a run of a configuration ends can be evaluated. -/
instance {built : Except (Stop LevelError) Hierarchy} {commands : List Command}
    {Q : Unit → Hierarchy → Prop} {E : Fault → Hierarchy → Prop} [∀ a s, Decidable (Q a s)]
    [∀ fault s, Decidable (E fault s)] :
    Decidable (∃ start, built = .ok start ∧ Ends Q E (run commands start)) :=
  match built with
  | .ok start => decidable_of_iff (Ends Q E (run commands start))
      ⟨fun h => ⟨start, rfl, h⟩, fun ⟨_, hstart, h⟩ => Except.ok.inj hstart ▸ h⟩
  | .error _ => .isFalse fun ⟨_, hstart, _⟩ => nomatch hstart

/-- All seven accesses are done. The data side has a dirty line and a clean one, the other side a
line, and memory expects a write-back. -/
example : ∃ start, ofConfig .narrow = .ok start ∧
    Ends (fun _ h => h.completions.map (fun d => (d.id, d.miss)) =
          [(1, true), (0, true), (2, false), (6, false), (3, true), (4, true), (5, true)] ∧
        (h.machine.caches.map fun d => d.tags.byRecency.flatten.map Line.dirty) =
          [[false], [true, false], [false, false]] ∧
        h.machine.memory.expected.ids = [8])
      (fun _ _ => False) (run Command.mixed start) := by
  decide +kernel

end Hierarchy

end CacheHierarchy
