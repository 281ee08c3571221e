import CacheHierarchy.Proofs.Lockstep.Runs

/-!
# A split level of which one side is used

A hierarchy with a split first level that sees accesses of one side only does the same, step for
step, as one whose first level is the cache on that side, unsplit. The other first-level cache stays
empty, and routing by side, the order in which the caches above are looked at and the checks on the
instruction side make no difference.
-/

namespace CacheHierarchy

def HierarchyConfig.unsplit (c : HierarchyConfig) (w : Side) : HierarchyConfig :=
  { c with
    topology := .multiLevel
    l1d := match w with
      | .data => c.l1d
      | .instruction => c.l1i }

structure Cache.Same (c c' : Cache) : Prop where
  /-- The lines, their recency and the counters. -/
  tags : c'.tags = c.tags.named c'.name
  latency : c'.latency = c.latency
  cycle : c'.cycle = c.cycle
  lookups : c'.lookups = c.lookups
  fills : c'.fills = c.fills
  sends : c'.sends = c.sends
  writeBacks : c'.writeBacks = c.writeBacks
  expected : c'.expected = c.expected

theorem Cache.same_recast (c : Cache) (j : Nat) (name : String) : c.Same (c.recast j name) :=
  ⟨rfl, rfl, rfl, rfl, rfl, rfl, rfl, rfl⟩

/-- A hierarchy with a split first level, of which one side is in use, and one without the split
are in corresponding states. -/
structure Hierarchy.Matches (w : Side) (h h' : Hierarchy) : Prop where
  cycle : h'.cycle = h.cycle
  completions : h'.completions = h.completions
  completed : h'.completed = h.completed
  /-- The access that missed on the side in use missed in the only cache of the other hierarchy. -/
  outstanding : h.machine.outstanding = h'.machine.outstanding.moved w.top
  finished : h'.machine.finished = h.machine.finished
  nextId : h'.machine.nextId = h.machine.nextId
  first : ∃ c c', h.machine.caches[w.top]? = some c ∧ h'.machine.caches[0]? = some c' ∧ c.Same c'
  second : ∃ c c', h.machine.caches[2]? = some c ∧ h'.machine.caches[1]? = some c' ∧ c.Same c'
  memory : h'.machine.memory = { h.machine.memory with above := h'.machine.memory.above }
  /-- The cache on the other side holds nothing and has counted nothing. -/
  idle : ∃ d, h.machine.caches[w.idle]? = some d ∧ d.Idle

theorem Hierarchy.Twins.correspond {w : Side} {h h' : Hierarchy}
    (ht : h.Twins w h') : h.Matches w h' := by
  obtain ⟨c, name, hc, hc', -⟩ := ht.machine.cache 0 Nat.zero_lt_two
  obtain ⟨d, other, hd, hd', -⟩ := ht.machine.cache 1 Nat.one_lt_two
  exact {
    cycle := ht.cycle
    completions := ht.completions
    completed := ht.completed
    outstanding := ht.machine.outstanding
    finished := ht.machine.finished
    nextId := ht.machine.nextId
    first := ⟨c, _, hc, hc', c.same_recast 0 name⟩
    second := ⟨d, _, hd, hd', d.same_recast 1 other⟩
    memory := by rw [ht.machine.memory]
    idle := ht.machine.idle }

/-! ### Hierarchies before anything has happened -/

theorem Cache.idle_fresh {name : String} {g : Geometry} {latency : Nat} {above : Above}
    {below : Below} {side : Option Side} (hspan : g.numSets * g.lineSize < wordLimit) :
    (fresh name g latency above below side).Idle :=
  ⟨hspan, rfl, rfl, rfl, rfl, rfl, rfl⟩

theorem Cache.serves_fresh (w : Side) (j : Nat) (name : String) (g : Geometry) (latency : Nat)
    (side : Option Side) :
    (fresh name g latency (Topology.splitL1.above (w.place j))
      (Topology.splitL1.below (w.place j)) side).Serves w j :=
  ⟨rfl, rfl, .empty, .empty, .empty, .empty⟩

theorem Machine.twins_of_caches {w : Side} {caches caches' : List Cache} {memory : Memory}
    {journal journal' : List Event} (hlength : caches.length = 3) (hlength' : caches'.length = 2)
    (hcache : ∀ j < 2, ∃ c name, caches[w.place j]? = some c ∧
      caches'[j]? = some (c.recast j name) ∧ c.Serves w j)
    (hidle : ∃ d, caches[w.idle]? = some d ∧ d.Idle) (habove : memory.above = some 2)
    (hqueue : memory.queue = {}) :
    Machine.Twins w { caches, memory, journal }
      { caches := caches', memory := { memory with above := some 1 }, journal := journal' } where
  length := hlength
  length' := hlength'
  cache := hcache
  idle := hidle
  memory := rfl
  above := habove
  queue := hqueue ▸ .empty
  outstanding := rfl
  finished := rfl
  nextId := rfl

theorem forM_eq_ok {ε γ : Type} {f : γ → Except ε PUnit} {l : List γ}
    (h : ∀ a ∈ l, f a = .ok ⟨⟩) : l.forM f = .ok ⟨⟩ := by
  induction l with
  | nil => rfl
  | cons a rest ih =>
    change (f a >>= fun _ => rest.forM f) = _
    rw [h a List.mem_cons_self]
    exact ih fun b hb => h b (List.mem_cons_of_mem _ hb)

theorem LevelConfig.validate_congr {level : LevelConfig} {name : String}
    (h : level.validate name = .ok ()) (name' : String) : level.validate name' = .ok () := by
  unfold validate at h ⊢
  split at h
  · cases h
  rename_i hsize
  split at h
  · cases h
  rename_i hassoc
  split at h
  · cases h
  rename_i hline
  rw [if_neg hsize, if_neg hassoc, if_neg hline]
  split at h
  · cases h
  split at h
  · cases h
  exact if_neg ‹_›

theorem HierarchyConfig.validate_unsplit {c : HierarchyConfig} (ht : c.topology = .splitL1)
    (hvalid : c.validate = .ok ()) (w : Side) : (c.unsplit w).validate = .ok () := by
  have hlevels := Hierarchy.HierarchyConfig.valid_of_mem hvalid
  rw [levels, ht] at hlevels
  refine forM_eq_ok fun level hlevel => ?_
  rw [levels] at hlevel
  rcases List.mem_pair.1 hlevel with rfl | rfl
  · cases w with
    | data => exact hlevels ("l1d", c.l1d) (by simp)
    | instruction => exact LevelConfig.validate_congr (hlevels ("l1i", c.l1i) (by simp)) _
  · exact hlevels ("l2", c.l2) (by simp)

namespace Hierarchy

variable {c : HierarchyConfig}

/-- Before anything has happened the two hierarchies are twins. -/
theorem exists_twin_starts (ht : c.topology = .splitL1) (hvalid : c.validate = .ok ())
    (hsized : c.Sized) (w : Side) :
    ∃ start start', ofConfig c = .ok start ∧ ofConfig (c.unsplit w) = .ok start' ∧
      start.Twins w start' := by
  have hvalid' := HierarchyConfig.validate_unsplit ht hvalid w
  obtain ⟨topology, l1d, l1i, l2, latency⟩ := c
  obtain rfl : topology = .splitL1 := ht
  have harray : ∀ level ∈ (HierarchyConfig.levels ⟨.splitL1, l1d, l1i, l2, latency⟩),
      ∃ g : Geometry, g.numSets * g.lineSize < wordLimit ∧
        ∀ name, level.2.tagArray name = .ok (TagArray.empty name g) := by
    intro level hlevel
    obtain ⟨g, -, hspan, harray⟩ :=
      LevelConfig.exists_tagArray (HierarchyConfig.valid_of_mem hvalid level hlevel)
    exact ⟨g, Nat.lt_of_le_of_lt hspan (hsized level hlevel), harray⟩
  obtain ⟨gi, hspani, harrayi⟩ := harray ("l1i", l1i) (by simp [HierarchyConfig.levels])
  obtain ⟨gd, hspand, harrayd⟩ := harray ("l1d", l1d) (by simp [HierarchyConfig.levels])
  obtain ⟨g2, -, harray2⟩ := harray ("l2", l2) (by simp [HierarchyConfig.levels])
  have hcaches : HierarchyConfig.caches ⟨.splitL1, l1d, l1i, l2, latency⟩ = .ok
      [Cache.fresh "L1I" gi l1i.latency .core (.cache 2) (some .instruction),
        Cache.fresh "L1D" gd l1d.latency .core (.cache 2) (some .data),
        Cache.fresh "L2" g2 l2.latency (.caches { instruction := 0, data := 1 }) .memory none] := by
    simp only [HierarchyConfig.caches, HierarchyConfig.cache_eq_ok harrayi,
      HierarchyConfig.cache_eq_ok harrayd, HierarchyConfig.cache_eq_ok harray2]
    rfl
  have hcaches' : ∀ {l1 : LevelConfig} {g : Geometry},
      (∀ name, l1.tagArray name = .ok (TagArray.empty name g)) →
      HierarchyConfig.caches ⟨.multiLevel, l1, l1i, l2, latency⟩ = .ok
        [Cache.fresh "L1U" g l1.latency .core (.cache 1) none,
          Cache.fresh "L2" g2 l2.latency (.caches (.both 0)) .memory none] := by
    intro l1 g harray1
    simp only [HierarchyConfig.caches, HierarchyConfig.cache_eq_ok harray1,
      HierarchyConfig.cache_eq_ok harray2]
    rfl
  have htwo : ∀ {j}, j < 2 → j = 0 ∨ j = 1 := fun hj =>
    Nat.le_one_iff_eq_zero_or_eq_one.1 (Nat.le_of_lt_succ hj)
  cases w with
  | data =>
    refine ⟨_, _, ofConfig_eq_ok hvalid hcaches, ofConfig_eq_ok hvalid' (hcaches' harrayd), rfl,
      rfl, ?_, rfl, rfl, rfl⟩
    refine Machine.twins_of_caches rfl rfl ?_ ⟨_, rfl, Cache.idle_fresh hspani⟩ rfl rfl
    intro j hj
    obtain rfl | rfl := htwo hj
    · exact ⟨_, "L1U", rfl, rfl, Cache.serves_fresh .data 0 "L1D" gd l1d.latency _⟩
    · exact ⟨_, "L2", rfl, rfl, Cache.serves_fresh .data 1 "L2" g2 l2.latency none⟩
  | instruction =>
    refine ⟨_, _, ofConfig_eq_ok hvalid hcaches, ofConfig_eq_ok hvalid' (hcaches' harrayi), rfl,
      rfl, ?_, rfl, rfl, rfl⟩
    refine Machine.twins_of_caches rfl rfl ?_ ⟨_, rfl, Cache.idle_fresh hspand⟩ rfl rfl
    intro j hj
    obtain rfl | rfl := htwo hj
    · exact ⟨_, "L1U", rfl, rfl, Cache.serves_fresh .instruction 0 "L1I" gi l1i.latency _⟩
    · exact ⟨_, "L2", rfl, rfl, Cache.serves_fresh .instruction 1 "L2" g2 l2.latency none⟩

/-- A run that uses one side of a split first level goes step for step like the run of the hierarchy
whose first level is the cache on that side. The hierarchy without the split faults only where the
other one does, and that one alone faults in an overflow at most. -/
theorem run_of_one_side (ht : c.topology = .splitL1) (hvalid : c.validate = .ok ())
    (hsized : c.Sized) (w : Side) {commands : List Command}
    (hside : ∀ command ∈ commands, command.On w) :
    ∃ start start', ofConfig c = .ok start ∧ ofConfig (c.unsplit w) = .ok start' ∧
      Lockstep (fun fault => fault = .sumOverflow) (fun _ h _ h' => h.Matches w h')
        (run commands start) (run commands start') := by
  obtain ⟨start, start', hstart, hstart', htwins⟩ := exists_twin_starts ht hvalid hsized w
  obtain ⟨start₁, p, hstart₁, -, -, hends⟩ := exists_run hvalid hsized commands
  obtain rfl : start = start₁ := Except.ok.inj (hstart.symm.trans hstart₁)
  refine ⟨start, start', hstart, hstart', ?_⟩
  refine ((run_twins hside htwins).and_left hends).mono (fun _ h _ h' hh => hh.1.correspond) ?_
  rintro fault ⟨hlone, s, ⟨rfl, -⟩ | ⟨array, addr, rfl, -⟩⟩
  · rfl
  · exact hlone.elim

theorem run_of_one_side_narrow :
    HierarchyConfig.narrow.topology = .splitL1 ∧ HierarchyConfig.narrow.validate = .ok () ∧
      HierarchyConfig.narrow.Sized ∧
      (∀ command ∈ Command.mixed.filter (·.On .data), command.On .data) ∧
      ∃ start start', ofConfig .narrow = .ok start ∧
        ofConfig (HierarchyConfig.narrow.unsplit .data) = .ok start' ∧
        Lockstep (fun fault => fault = .sumOverflow) (fun _ h _ h' => h.Matches .data h')
          (run (Command.mixed.filter (·.On .data)) start)
          (run (Command.mixed.filter (·.On .data)) start') :=
  ⟨rfl, rfl, by decide, by decide, run_of_one_side rfl rfl (by decide) .data (by decide)⟩

end Hierarchy

end CacheHierarchy
