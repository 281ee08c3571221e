import CacheHierarchy.Proofs.Latency
import CacheHierarchy.Proofs.Pace.Runs

/-!
# Timetables of configurations

When an access leaves a spot follows from the latencies on its way, and a write-back is made by a
demand fill, so it follows when the last write-back can be made and when it is taken in at memory.
`c.drainTime` is the number of cycles for which a hierarchy can be busy after the last access.
-/

namespace CacheHierarchy

namespace HierarchyConfig

variable (c : HierarchyConfig)

def topLatency : Nat := max (c.entryLatency .instruction) (c.entryLatency .data)

/-- For how many cycles after its issue an access is looked up in a cache, at the most. -/
def lookUpTime (i : Nat) : Nat :=
  if c.topology.base? = some i then c.topLatency + 1 + c.l2.latency else c.topLatency

/-- How long it takes at the most until memory has read for an access. -/
def readTime : Nat :=
  match c.topology with
  | .dramOnly => c.memoryLatency
  | .singleLevel => c.topLatency + 1 + c.memoryLatency
  | _ => c.topLatency + 1 + c.l2.latency + 1 + c.memoryLatency

/-- How long an access takes at the most. -/
def accessTime : Nat :=
  match c.topology with
  | .dramOnly => c.memoryLatency
  | .singleLevel => 2 * c.topLatency + c.memoryLatency + 2
  | _ => 2 * c.topLatency + 2 * c.l2.latency + c.memoryLatency + 4

/-- How long it takes at the most until an access is filled in at a cache. -/
def fillTime (i : Nat) : Nat :=
  if c.topology.base? = some i then c.readTime + 1 + c.l2.latency else c.accessTime

/-- How long a hierarchy is busy at the most after the last access was issued. -/
def drainTime : Nat :=
  match c.topology with
  | .dramOnly => c.memoryLatency
  | .singleLevel => 2 * c.topLatency + 2 * c.memoryLatency + 3
  | _ => 2 * c.topLatency + 2 * c.l2.latency + c.memoryLatency + 4 +
      max c.memoryLatency (c.l2.latency + 1)

def latencyAt : Site → Nat
  | .cache i => c.levels[i]?.elim 0 fun level => level.2.latency
  | .memory => c.memoryLatency

def timetable (last : Nat) : Timetable where
  topology := c.topology
  latency := c.latencyAt
  last
  travel
    | .lookups i => c.lookUpTime i
    | .sends i => c.lookUpTime i + 1
    | .memory => c.readTime
    | .fills i => c.fillTime i
    | .writeBacks _ => 0
    | .finished => c.accessTime
  late
    | .writeBacks i => last + c.fillTime i + 1
    | .sends i => last + c.fillTime i + 1
    | _ => last + c.drainTime

variable {c} {i b : Nat}

theorem latencyAt_top (hi : i ∈ c.topology.tops) : c.latencyAt (.cache i) ≤ c.topLatency := by
  obtain ⟨topology, l1d, l1i, l2, memoryLatency⟩ := c
  cases topology with
  | dramOnly => cases hi
  | singleLevel | multiLevel =>
    obtain rfl := List.mem_singleton.1 hi
    exact le_max_right _ _
  | splitL1 =>
    rcases List.mem_cons.1 hi with rfl | hi
    · exact le_max_left _ _
    · obtain rfl := List.mem_singleton.1 hi
      exact le_max_right _ _

theorem latencyAt_base (hb : c.topology.base? = some b) :
    c.latencyAt (.cache b) = c.l2.latency :=
  baseLatency_eq (fun i level hlevel => by rw [latencyAt, hlevel]; rfl) hb

section Times

/-- The times of a hierarchy of two levels. -/
theorem times_of_base (hb : c.topology.base? = some b) :
    c.lookUpTime b = c.topLatency + 1 + c.l2.latency ∧
      c.readTime = c.lookUpTime b + 1 + c.memoryLatency ∧
      c.fillTime b = c.readTime + 1 + c.l2.latency ∧
      c.accessTime = c.fillTime b + 1 + c.topLatency ∧
      c.drainTime = c.accessTime + max c.memoryLatency (c.l2.latency + 1) := by
  have htwo : c.readTime = c.topLatency + 1 + c.l2.latency + 1 + c.memoryLatency ∧
      c.accessTime = 2 * c.topLatency + 2 * c.l2.latency + c.memoryLatency + 4 ∧
      c.drainTime = c.accessTime + max c.memoryLatency (c.l2.latency + 1) := by
    unfold readTime accessTime drainTime
    cases ht : c.topology with
    | dramOnly | singleLevel =>
      rw [ht] at hb
      cases hb
    | multiLevel | splitL1 => exact ⟨rfl, rfl, rfl⟩
  obtain ⟨hread, haccess, hdrain⟩ := htwo
  rw [lookUpTime, fillTime, if_pos hb, if_pos hb]
  omega

/-- The times of a first-level cache. -/
theorem times_of_top (hi : i ∈ c.topology.tops) :
    c.lookUpTime i = c.topLatency ∧ c.fillTime i = c.accessTime := by
  have hnot : ¬c.topology.base? = some i := fun hb => Topology.base_not_mem_tops hb hi
  exact ⟨if_neg hnot, if_neg hnot⟩

theorem times_of_single (hi : i ∈ c.topology.tops) (hb : c.topology.base? = none) :
    c.readTime = c.topLatency + 1 + c.memoryLatency ∧
      c.accessTime = c.readTime + 1 + c.topLatency ∧
      c.drainTime = c.accessTime + 1 + c.memoryLatency := by
  unfold readTime accessTime drainTime
  cases ht : c.topology with
  | singleLevel =>
    dsimp only
    omega
  | dramOnly =>
    rw [ht] at hi
    cases hi
  | multiLevel | splitL1 =>
    rw [ht] at hb
    cases hb

theorem times_of_last? (h : c.topology.last? = none) :
    c.readTime = c.memoryLatency ∧ c.accessTime = c.memoryLatency ∧
      c.drainTime = c.memoryLatency := by
  rw [Topology.last?_eq_none_iff] at h
  unfold readTime accessTime drainTime
  rw [h]
  exact ⟨rfl, rfl, rfl⟩

end Times

/-- The way of a write-back that is made or owed in a fill ends in time. -/
theorem fillTime_le (hi : i < c.topology.size) :
    c.fillTime i + c.memoryLatency ≤ c.drainTime ∧
      (c.topology.below i = .memory → c.fillTime i + 1 + c.memoryLatency ≤ c.drainTime) ∧
      ∀ b, c.topology.below i = .cache b → c.fillTime i + 1 + c.l2.latency ≤ c.drainTime := by
  cases hb : c.topology.base? with
  | none =>
    have htop : i ∈ c.topology.tops := (Topology.lt_size_iff.1 hi).resolve_right (by simp [hb])
    have htimes := times_of_single htop hb
    have hfill := (times_of_top htop).2
    refine ⟨by omega, fun _ => by omega, fun b hbelow => ?_⟩
    rw [Topology.below_of_base?_eq_none hb] at hbelow
    cases hbelow
  | some b =>
    have htimes := times_of_base hb
    rcases Topology.lt_size_iff.1 hi with htop | hbase
    · have hfill := (times_of_top htop).2
      refine ⟨by omega, fun hbelow => ?_, fun _ _ => by omega⟩
      rw [Topology.below_top hb htop] at hbelow
      cases hbelow
    · obtain rfl := Option.some.inj (hbase.symm.trans hb)
      exact ⟨by omega, fun _ => by omega, fun _ _ => by omega⟩

/-- An access that is looked up and sent down reaches memory and is filled in later. -/
theorem lookUpTime_le (hi : i < c.topology.size) :
    c.lookUpTime i + 1 ≤ c.accessTime ∧
      (c.topology.below i = .memory → c.lookUpTime i + 1 + c.memoryLatency ≤ c.readTime) := by
  cases hb : c.topology.base? with
  | none =>
    have htop : i ∈ c.topology.tops := (Topology.lt_size_iff.1 hi).resolve_right (by simp [hb])
    have htimes := times_of_single htop hb
    have hlookUp := (times_of_top htop).1
    exact ⟨by omega, fun _ => by omega⟩
  | some b =>
    have htimes := times_of_base hb
    rcases Topology.lt_size_iff.1 hi with htop | hbase
    · have hlookUp := (times_of_top htop).1
      refine ⟨by omega, fun hbelow => ?_⟩
      rw [Topology.below_top hb htop] at hbelow
      cases hbelow
    · obtain rfl := Option.some.inj (hbase.symm.trans hb)
      exact ⟨by omega, fun _ => by omega⟩

/-- A timetable by the latencies of a configuration allows for every way. -/
theorem sound_timetable (last : Nat) : (c.timetable last).Sound where
  enter kind i hi := by
    have htop := Topology.mem_tops_of_entryFor? hi
    exact (latencyAt_top htop).trans_eq (times_of_top htop).1.symm
  enterMemory hnone := (times_of_last? hnone).1.ge
  miss _ := le_rfl
  leave i hi hbelow := by
    change c.lookUpTime i + 1 + c.memoryLatency ≤ c.readTime ∧
      last + c.fillTime i + 1 + c.memoryLatency ≤ last + c.drainTime
    have hlookUp := (lookUpTime_le hi).2 hbelow
    have hfill := (fillTime_le hi).2.1 hbelow
    omega
  down i b hi hbelow := by
    change c.lookUpTime i + 1 + c.latencyAt (.cache b) ≤ c.lookUpTime b ∧
      last + c.fillTime i + 1 + c.latencyAt (.cache b) ≤ last + c.drainTime
    have hbase := (Topology.base?_of_below hbelow).1
    have hlookUp := (times_of_top (Topology.mem_tops_of_below hbelow hi)).1
    have hfill := (fillTime_le hi).2.2 b hbelow
    rw [latencyAt_base hbase, (times_of_base hbase).1]
    omega
  read i hlast := by
    change c.readTime + 1 + c.latencyAt (.cache i) ≤ c.fillTime i
    rcases Topology.mem_tops_or_base?_of_last? hlast with ⟨htop, hb⟩ | hb
    · have hlatency := latencyAt_top htop
      have hfill := (times_of_top htop).2
      have htimes := times_of_single htop hb
      omega
    · rw [latencyAt_base hb, (times_of_base hb).2.2.1]
  up b i hb hi := by
    change c.lookUpTime b + 1 + c.latencyAt (.cache i) ≤ c.fillTime i ∧
      c.fillTime b + 1 + c.latencyAt (.cache i) ≤ c.fillTime i
    have hlatency := latencyAt_top hi
    have hfill := (times_of_top hi).2
    have htimes := times_of_base hb
    omega
  displace _ _ := le_rfl
  release _ := le_rfl
  straight i hi := by
    change last + c.fillTime i + c.memoryLatency ≤ last + c.drainTime
    have hfill := (fillTime_le hi).1
    omega
  hit i hi := (Nat.le_succ _).trans (lookUpTime_le (Topology.lt_size_of_mem_tops hi)).1
  filled i hi := (times_of_top hi).2.le
  answered hnone := by
    obtain ⟨hread, haccess, -⟩ := times_of_last? hnone
    exact (hread.trans haccess.symm).le

theorem readTime_le (c : HierarchyConfig) : c.readTime ≤ c.accessTime := by
  unfold readTime accessTime
  split <;> omega

theorem accessTime_le (c : HierarchyConfig) :
    c.accessTime ≤ c.drainTime ∧ c.memoryLatency ≤ c.drainTime := by
  unfold accessTime drainTime
  split <;> omega

theorem latencyAt_le (c : HierarchyConfig) (site : Site) : c.latencyAt site ≤ c.drainTime := by
  have haccess := c.accessTime_le
  cases site with
  | memory => exact haccess.2
  | cache i =>
    by_cases hi : i < c.topology.size
    · rcases Topology.lt_size_iff.1 hi with htop | hbase
      · have hlatency := latencyAt_top htop
        have hlookUp := (lookUpTime_le hi).1
        rw [(times_of_top htop).1] at hlookUp
        omega
      · have htimes := times_of_base hbase
        rw [latencyAt_base hbase]
        omega
    · rw [latencyAt, List.getElem?_eq_none (c.length_levels.trans_le (Nat.le_of_not_lt hi))]
      exact Nat.zero_le _

/-- Everything is due within the drain time of the last access. -/
theorem due_timetable (last : Nat) {s : Spot} (hs : c.topology.Has s) :
    (c.timetable last).travel s ≤ c.drainTime ∧
      (c.timetable last).late s ≤ last + c.drainTime := by
  have haccess := c.accessTime_le.1
  have hlater : ∀ i, i < c.topology.size → c.fillTime i + 1 ≤ c.drainTime := fun i hi => by
    obtain ⟨-, hmemory, hcache⟩ := fillTime_le hi
    cases hbelow : c.topology.below i with
    | memory =>
      have hfill := hmemory hbelow
      omega
    | cache b =>
      have hfill := hcache b hbelow
      omega
  cases s with
  | lookups i => exact ⟨by have := (lookUpTime_le hs).1; simp only [timetable]; omega, le_rfl⟩
  | sends i =>
    exact ⟨(lookUpTime_le hs).1.trans haccess, Nat.add_le_add_left (hlater i hs) last⟩
  | fills i => exact ⟨(Nat.le_succ _).trans (hlater i hs), le_rfl⟩
  | writeBacks i => exact ⟨Nat.zero_le _, Nat.add_le_add_left (hlater i hs) last⟩
  | memory => exact ⟨c.readTime_le.trans haccess, le_rfl⟩
  | finished => exact hs.elim

end HierarchyConfig

namespace Hierarchy

variable {c : HierarchyConfig}

/-- A hierarchy as it is built keeps to any timetable of its latencies. -/
theorem exists_paced_start (hvalid : c.validate = .ok ()) (hsized : c.Sized) (last : Nat) :
    ∃ start, ofConfig c = .ok start ∧ start.Paced (c.timetable last) 0 0 ∧ start.cycle = 0 := by
  obtain ⟨caches, hcaches, hlength, hfresh⟩ := exists_caches hvalid hsized
  obtain ⟨start, hstart, htracked, -⟩ := exists_start hvalid hsized
  obtain rfl := Except.ok.inj (hstart.symm.trans (ofConfig_eq_ok hvalid hcaches))
  refine ⟨_, hstart, ⟨rfl, ?_, rfl, fun d hd => absurd hd List.not_mem_nil⟩, rfl⟩
  refine ⟨hlength, fun i d hd => ?_, htracked.tracks.sound.above, rfl, rfl, .empty, ?_, rfl⟩
  · have hlatency : d.latency = c.latencyAt (.cache i) := by
      have hlevel := congrArg (·[i]?) (HierarchyConfig.latencies hcaches)
      simp only [List.getElem?_map, hd, Option.map_some] at hlevel
      obtain ⟨level, hlevel, hd⟩ := Option.map_eq_some_iff.1 hlevel.symm
      rw [HierarchyConfig.latencyAt, hlevel]
      exact hd.symm
    obtain ⟨name, g, latency, rfl, -⟩ := hfresh i d hd
    exact ⟨rfl, rfl, hlatency, rfl, .empty, .empty, .empty, .empty⟩
  · exact fun r hr => absurd hr List.not_mem_nil

theorem exists_steady_start {lineSize : Nat} (hvalid : c.validate = .ok ()) (hsized : c.Sized)
    (huniform : c.Uniform lineSize) (last : Nat) :
    ∃ start p, ofConfig c = .ok start ∧
      (∀ b, p.topology.base? = some b → p.Aligned b) ∧
      start.Steady p (c.timetable last) 0 ∧ start.completions = [] ∧
      start.machine.finished = [] ∧ start.isIdle = true ∧ start.cycle = 0 := by
  obtain ⟨caches, hcaches, -, hfresh⟩ := exists_caches hvalid hsized
  obtain ⟨start, hstart, htracked, htopology, hlines⟩ := exists_start hvalid hsized
  obtain ⟨start', hstart', hpaced, -⟩ := exists_paced_start hvalid hsized last
  obtain rfl := Except.ok.inj (hstart'.symm.trans hstart)
  obtain rfl := Except.ok.inj (hstart.symm.trans (ofConfig_eq_ok hvalid hcaches))
  have hplan := huniform.plan htopology hlines
  refine ⟨_, _, hstart, fun b hb => hplan.aligned hb, ⟨htracked, rfl, hpaced⟩, rfl, rfl, ?_, rfl⟩
  rw [isIdle, isWriteBackDone, Bool.and_eq_true, Bool.and_eq_true, List.all_eq_true]
  refine ⟨rfl, fun d hd => ?_, rfl⟩
  obtain ⟨i, hi⟩ := List.mem_iff_getElem?.1 hd
  obtain ⟨name, g, latency, rfl, -⟩ := hfresh i d hi
  rfl

end Hierarchy

end CacheHierarchy
