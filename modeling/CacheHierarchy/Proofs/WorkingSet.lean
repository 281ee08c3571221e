import CacheHierarchy.Proofs.Agreement
import CacheHierarchy.Proofs.Inclusion
import CacheHierarchy.Proofs.Overview.Budget
import CacheHierarchy.Proofs.Overview.Fetched

/-!
# Working sets that fit

A session accesses some lines. If every set of the second level has as many ways as there are lines
of that set among them, the second level evicts nothing, so nothing is invalidated above it and
nothing is written back below it. Each line is then read from memory once, or once for each side
where the first level is split.
-/

namespace CacheHierarchy

/-- The sets of a level have room for some lines. -/
def LevelConfig.HasRoom (c : LevelConfig) (lines : Finset Nat) : Prop :=
  ∀ set < c.size / (c.assoc * c.lineSize),
    (lines.filter fun line => line % (c.size / (c.assoc * c.lineSize)) = set).card ≤ c.assoc

instance (c : LevelConfig) (lines : Finset Nat) : Decidable (c.HasRoom lines) :=
  inferInstanceAs (Decidable (∀ set < c.size / (c.assoc * c.lineSize),
    (lines.filter fun line => line % (c.size / (c.assoc * c.lineSize)) = set).card ≤ c.assoc))

theorem LevelConfig.HasRoom.mono {c : LevelConfig} {lines lines' : Finset Nat}
    (h : c.HasRoom lines) (hsub : lines' ⊆ lines) : c.HasRoom lines' := fun set hset =>
  (Finset.card_le_card (Finset.filter_subset_filter _ hsub)).trans (h set hset)

theorem LevelConfig.HasRoom.plan {c : HierarchyConfig} {h : Hierarchy}
    (hstart : Hierarchy.ofConfig c = .ok h) {b : Nat} (hb : c.topology.base? = some b)
    {lines : Finset Nat} (hroom : c.l2.HasRoom lines) : (h.plan.geometry b).HasRoom lines := by
  obtain ⟨d, hd, htags⟩ := Hierarchy.exists_base_of_ofConfig_eq_ok hstart hb
  obtain ⟨hsets, hassoc⟩ := LevelConfig.geometry_of_tagArray htags
  rw [Hierarchy.geometry_plan hd, Geometry.HasRoom, hsets, hassoc]
  exact hroom

def Call.addr? : Call → Option Nat
  | .command (.access addr ..) => some addr
  | _ => none

/-- The lines that are accessed. -/
def accessedLines (lineSize : Nat) (calls : List Call) : Finset Nat :=
  ((calls.filterMap Call.addr?).map (· / lineSize)).toFinset

def Machine.fetches (m : Machine) (lineSize line : Nat) (side : Side) : Nat :=
  m.journal.countP fun
    | .accepted r => r.kind.isDemand && r.kind.side == side && r.isOnLine lineSize line
    | _ => false

namespace Hierarchy

/-- Cache `b` has evicted nothing, and nothing was given up above it or written back for it. -/
structure EvictsNothing (h : Hierarchy) (b : Nat) : Prop where
  /-- What the cache has installed it still holds, and it has made no write-back. -/
  base : ∃ base, h.machine.caches[b]? = some base ∧ base.tags.counters.writeBacks = 0 ∧
    ∀ r cycle, .installed b r cycle ∈ h.machine.journal → base.Holds r.addr
  tops : ∀ i ∈ h.topology.tops, ∃ top, h.machine.caches[i]? = some top ∧
    top.tags.counters.backInvalidations = 0 ∧ top.tags.counters.dirtyBackInvalidations = 0
  memory : h.machine.memory.writeBacks = 0
  fills : ∀ c ∈ h.machine.caches, ∀ r ∈ c.fills.items, r.bypass = false

/-- Memory has read each line once, or once for each side. -/
structure ReadsOnce (h : Hierarchy) (lineSize : Nat) (lines : Finset Nat) : Prop where
  /-- Memory has read what it has taken in. -/
  reads : h.machine.memory.reads = h.machine.journal.countP Event.isRead
  multiLevel : h.topology = .multiLevel → h.machine.memory.reads = lines.card
  atLeastOnce : ∀ line ∈ lines, ∃ side, 1 ≤ h.machine.fetches lineSize line side
  atMostOnce : ∀ line side, h.machine.fetches lineSize line side ≤ 1

end Hierarchy

namespace Session

variable {p : Plan} {s : Session} {b : Nat}

def overview (s : Session) : Overview :=
  s.hierarchy.machine.overview { now := s.hierarchy.cycle, completions := s.completions }

theorem Kept.tracked (h : s.Kept p) : (s.hierarchy.behind s.collected).Tracked p := by
  obtain ⟨o, hshows, -⟩ := h.shows
  exact hshows.tracked

theorem Kept.reach (h : s.Kept p) : Reach p s.overview := h.tracked.tracks.reach

theorem Kept.asked_iff (h : s.Kept p) {line : Nat} :
    s.overview.Asked p b line ↔ ∃ t ∈ s.issued, p.line b t.addr = line := by
  obtain ⟨o, hshows, -, hlabels⟩ := h.shows
  constructor
  · rintro (⟨q, r, hr, hdemand, rfl⟩ | ⟨d, hd, rfl⟩)
    · rw [overview, Machine.overview, add_zero] at hr
      exact ⟨r.ticket, (hlabels _).1 (hshows.mem_labels.2 (.inl ⟨_, hr, hdemand, rfl⟩)), rfl⟩
    · exact ⟨d.ticket, (hlabels _).1 (hshows.mem_labels.2 (.inr ⟨d, hd, rfl⟩)), rfl⟩
  · rintro ⟨t, ht, rfl⟩
    rcases hshows.mem_labels.1 ((hlabels t).2 ht) with ⟨x, hx, hdemand, rfl⟩ | ⟨d, hd, rfl⟩
    · refine .of_mem (s := x.1) ?_ hdemand
      rw [overview, Machine.overview, add_zero]
      exact hx
    · exact .inr ⟨d, hd, rfl⟩

theorem call_issued (next : Call) (s : Session) :
    Yields (fun _ s' => s'.issued.map Ticket.addr = s.issued.map Ticket.addr ++ next.addr?.toList)
      (call next s) := by
  cases next with
  | command command =>
    cases hperform : Hierarchy.perform command s.hierarchy with
    | ok a hierarchy =>
      rw [call_of_perform_ok hperform]
      change (s.issued ++ s.hierarchy.tickets command).map Ticket.addr = _
      rw [List.map_append]
      cases command <;> rfl
    | error fault hierarchy =>
      rw [call_of_perform_error hperform]
      trivial
  | collect =>
    have hnone : Call.collect.addr?.toList = [] := rfl
    rw [hnone, List.append_nil]
    apply Ends.of_modify
    split <;> rfl

variable {lineSize : Nat} {calls : List Call}

theorem Kept.asked_iff_mem (h : s.Kept p) (huniform : p.Uniform lineSize)
    (hb : p.topology.base? = some b)
    (hissued : s.issued.map Ticket.addr = calls.filterMap Call.addr?) {line : Nat} :
    s.overview.Asked p b line ↔ line ∈ accessedLines lineSize calls := by
  rw [h.asked_iff, accessedLines, ← hissued]
  simp only [huniform.line_eq (Topology.lt_size_of_base? hb), List.mem_toFinset, List.map_map,
    List.mem_map, Function.comp_apply]

theorem Kept.evictsNothing (h : s.Kept p) (hb : p.topology.base? = some b)
    (hu : Undisplaced p b s.overview) : s.hierarchy.EvictsNothing b := by
  obtain ⟨htopology, hsound, -⟩ := h.tracked
  obtain ⟨base, hbase, hbase_sound⟩ := hsound.exists_cache (Topology.lt_size_of_base? hb)
  refine ⟨⟨base, hbase, ?_, fun r cycle hr => ?_⟩, fun i hi => ?_, hu.memory, fun c hc r hr => ?_⟩
  · have hcounters : s.overview.counters b = base.tags.counters := Machine.counters_overview hbase
    rw [← hcounters]
    exact hu.base
  · have hlines : s.overview.lines b = base.tags.lines := Machine.lines_overview hbase
    rw [hbase_sound.holds_iff, ← hlines]
    exact hu.installed r cycle hr
  · have htops : i ∈ p.topology.tops := htopology ▸ hi
    obtain ⟨top, htop, -⟩ := hsound.exists_cache (Topology.lt_size_of_mem_tops htops)
    have hcounters : s.overview.counters i = top.tags.counters := Machine.counters_overview htop
    refine ⟨top, htop, ?_⟩
    rw [← hcounters]
    exact hu.tops i htops
  · obtain ⟨i, hi⟩ := List.mem_iff_getElem?.1 hc
    have hmem : (.fills i, r) ∈ s.overview.traffic := by
      rw [overview, Machine.overview, add_zero]
      exact Machine.mem_traffic_of_cache hi ((mem_traffic c).2 (.inr (.inl ⟨rfl, hr⟩)))
    exact hu.bypass _ hmem

/-- For each side, a line is read once at most. -/
theorem fetches_le_one (huniform : p.Uniform lineSize) (hb : p.topology.base? = some b)
    (hf : Fetched p b s.overview) (line : Nat) (side : Side) :
    s.hierarchy.machine.fetches lineSize line side ≤ 1 := by
  let k : Option Nat × Nat := (p.topology.entry?.map fun ports => ports.on side, line)
  refine le_trans ?_ (List.nodup_iff_count_le_one.1 hf.nodup k)
  rw [Overview.fetches, List.count_filterMap]
  refine List.countP_mono_left fun event _ hevent => ?_
  cases event with
  | accepted r =>
    simp only [Bool.and_eq_true, beq_iff_eq, Request.isOnLine] at hevent
    obtain ⟨⟨hdemand, rfl⟩, rfl⟩ := hevent
    rw [Plan.fetch?, if_pos hdemand, Plan.key, huniform.line_eq (Topology.lt_size_of_base? hb)]
    exact beq_self_eq_true _
  | _ => cases hevent

/-- An idle session has read every line that it has accessed, and no other line. -/
theorem Kept.readsOnce (h : s.Kept p) (huniform : p.Uniform lineSize)
    (hb : p.topology.base? = some b) (hf : Fetched p b s.overview)
    (hissued : s.issued.map Ticket.addr = calls.filterMap Call.addr?)
    (hidle : s.hierarchy.isIdle = true) :
    s.hierarchy.ReadsOnce lineSize (accessedLines lineSize calls) := by
  have hnone : demandIds s.overview.traffic = 0 := by
    rw [h.reach.orderly.ids]
    exact congrArg Multiset.ofList (Hierarchy.ids_of_isIdle hidle)
  have hlines : ∀ line, line ∈ (s.overview.fetches p b).map Prod.snd ↔
      line ∈ accessedLines lineSize calls := fun line =>
    (hf.mem_iff_asked h.reach hb hnone).trans (h.asked_iff_mem huniform hb hissued)
  have hreads := h.reach.reads_eq (Topology.last?_ne_none_of_base? hb)
  rw [weigh_due_eq_zero hnone, Nat.add_zero] at hreads
  refine ⟨hreads, fun hmulti => ?_, fun line hmem => ?_, fetches_le_one huniform hb hf⟩
  · -- all accesses enter the same cache, so the lines alone tell the reads apart
    have hentry : ∀ k ∈ s.overview.fetches p b, k.1 = some 0 := by
      intro k hk
      obtain ⟨r, -, -, rfl⟩ := mem_fetches.1 hk
      rw [Plan.key, ← h.tracked.topology]
      change s.hierarchy.topology.entryFor? r.kind = some 0
      rw [hmulti]
      simp [Topology.entryFor?, Topology.entry?]
    have hnodup : ((s.overview.fetches p b).map Prod.snd).Nodup := by
      refine hf.nodup.map_on fun k hk k' hk' heq => ?_
      exact Prod.ext ((hentry k hk).trans (hentry k' hk').symm) heq
    calc s.hierarchy.machine.memory.reads
      _ = (s.overview.fetches p b).length := hreads.trans length_fetches.symm
      _ = ((s.overview.fetches p b).map Prod.snd).toFinset.card := by
        rw [List.toFinset_card_of_nodup hnodup, List.length_map]
      _ = (accessedLines lineSize calls).card := by
        congr 1
        ext line
        rw [List.mem_toFinset, hlines]
  · obtain ⟨k, hk, rfl⟩ := List.mem_map.1 ((hlines line).2 hmem)
    obtain ⟨r, hr, hdemand, rfl⟩ := mem_fetches.1 hk
    refine ⟨r.kind.side, List.countP_pos_iff.2 ⟨_, hr, ?_⟩⟩
    simp [hdemand, Request.isOnLine, Plan.key,
      huniform.line_eq (Topology.lt_size_of_base? hb)]

theorem accessedLines_subset {before : List Call} (h : before <+: calls) :
    accessedLines lineSize before ⊆ accessedLines lineSize calls := by
  obtain ⟨rest, rfl⟩ := h
  simp only [accessedLines, List.filterMap_append, List.map_append, List.toFinset_append]
  exact Finset.subset_union_left

theorem run_issued (calls : List Call) (h : s.Kept p) :
    Ends (fun _ s' => s'.Kept p ∧ s'.issued.map Ticket.addr =
        s.issued.map Ticket.addr ++ calls.filterMap Call.addr?)
      (fun fault s' => Hierarchy.Fails p fault s'.hierarchy) (run calls s) := by
  let I (rest : List Call) (s' : Session) : Prop :=
    s'.Kept p ∧ s'.issued.map Ticket.addr ++ rest.filterMap Call.addr? =
      s.issued.map Ticket.addr ++ calls.filterMap Call.addr?
  refine (Ends.forM (I := I) (fun next rest s' ⟨hs', hissued⟩ => ?_) ⟨h, rfl⟩).mono
    (fun _ s' ⟨hs', hissued⟩ => ⟨hs', ?_⟩) fun _ _ => id
  · refine ((call_ends next hs').and (call_issued next s')).mono
      (fun _ s'' ⟨hs'', hnext⟩ => ⟨hs'', ?_⟩) fun _ _ => id
    rw [hnext, ← hissued, List.append_assoc]
    cases h : next.addr? <;> simp [h]
  · rwa [List.filterMap_nil, List.append_nil] at hissued

/-- Where there are two levels with lines of one size, and the sets of the second level have room
for all lines that the calls of a session access, the second level evicts nothing at any time, and
each of the lines is read from memory once, or once for each side. -/
theorem working_set_read_once {c : HierarchyConfig} (hvalid : c.validate = .ok ())
    (hsized : c.Sized) (huniform : c.Uniform lineSize) (hb : c.topology.base? = some b)
    (hroom : c.l2.HasRoom (accessedLines lineSize calls)) :
    ∃ start, Hierarchy.ofConfig c = .ok start ∧ ∀ before, before <+: calls →
      Ends (fun _ s => s.hierarchy.topology = c.topology ∧ s.hierarchy.EvictsNothing b ∧
          (s.hierarchy.isIdle = true →
            s.hierarchy.ReadsOnce lineSize (accessedLines lineSize before)))
        (fun fault s => fault = .sumOverflow ∧ s.hierarchy.Exhausted)
        (run before { hierarchy := start }) := by
  obtain ⟨start, hstart, ht, hkept, hlines⟩ := exists_start hvalid hsized
  refine ⟨start, hstart, fun before hbefore => ?_⟩
  have hroom := (hroom.mono (accessedLines_subset hbefore)).plan hstart hb
  have hplan := huniform.plan ht hlines
  rw [← ht] at hb
  have hmatch : ∀ i ∈ start.plan.topology.tops, start.plan.Matches i b := fun i hi =>
    (hplan i (Topology.lt_size_of_mem_tops hi)).trans
      (hplan b (Topology.lt_size_of_base? hb)).symm
  refine (run_issued before hkept).mono (fun _ s ⟨hs, hissued⟩ => ?_) fun _ _ hfails => ?_
  · have hasked : ∀ line, s.overview.Asked start.plan b line →
        line ∈ accessedLines lineSize before := fun line =>
      (hs.asked_iff_mem hplan hb hissued).1
    have htopology : s.hierarchy.topology = start.plan.topology := hs.tracked.topology
    refine ⟨htopology.trans ht, ?_, fun hidle => ?_⟩
    · exact hs.evictsNothing hb (hs.reach.undisplaced hb hroom hasked)
    · exact hs.readsOnce hplan hb (hs.reach.fetched hb hmatch hroom hasked) hissued hidle
  · exact hfails.overflow (.inr ⟨b, hb, hplan.aligned hb⟩)

/-- Both sides miss on one line at the same time, and the data side on another. -/
def sharedMiss {addr addr' : Nat} (haddr : addr < wordLimit) (haddr' : addr' < wordLimit) :
    List Call :=
  .command (.access addr .write haddr AccessKind.isDemand_write) ::
    .command (.access addr .instFetch haddr AccessKind.isDemand_instFetch) ::
    .command (.access addr' .read haddr' AccessKind.isDemand_read) ::
    List.replicate 24 (.command .cycle) ++ [.collect]

theorem working_set_read_once_narrow :
    HierarchyConfig.narrow.validate = .ok () ∧ HierarchyConfig.narrow.Sized ∧
      HierarchyConfig.narrow.Uniform 32 ∧ HierarchyConfig.narrow.topology.base? = some 2 ∧
      HierarchyConfig.narrow.l2.HasRoom (accessedLines 32
        (sharedMiss (show 0 < wordLimit by decide) (show 40 < wordLimit by decide))) ∧
      ∃ start, Hierarchy.ofConfig .narrow = .ok start ∧ ∀ before,
        before <+: sharedMiss (show 0 < wordLimit by decide) (show 40 < wordLimit by decide) →
        Ends (fun _ s => s.hierarchy.topology = .splitL1 ∧ s.hierarchy.EvictsNothing 2 ∧
            (s.hierarchy.isIdle = true →
              s.hierarchy.ReadsOnce 32 (accessedLines 32 before)))
          (fun fault s => fault = .sumOverflow ∧ s.hierarchy.Exhausted)
          (run before { hierarchy := start }) :=
  have huniform : HierarchyConfig.narrow.Uniform 32 := by decide
  ⟨rfl, by decide, huniform, rfl, by decide,
    working_set_read_once rfl (by decide) huniform rfl (by decide)⟩

end Session

end CacheHierarchy
