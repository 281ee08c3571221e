import CacheHierarchy.Proofs.Execution.LookingUp
import CacheHierarchy.Proofs.Execution.Sending

/-!
# One cycle of a machine

A stage takes ready requests out of one queue and deals with each of them, so it keeps what dealing
with one keeps. A cycle is the stages of every cache and the turn of memory, after which memory's
clock is ahead of the hierarchy's.
-/

namespace CacheHierarchy

/-- What is taken out of one queue of a cache is a request, and nothing else changes. -/
structure Cache.Takes (i : Nat) (s : Spot) (c : Cache) (r : Request) (c' : Cache) : Prop where
  traffic : c.traffic i = (s, r) ::ₘ c'.traffic i
  tags : c'.tags = c.tags
  expected : c'.expected = c.expected
  above : c'.above = c.above
  below : c'.below = c.below
  side : c'.side = c.side

namespace Cache

variable {p : Plan} {i : Nat} {s : Spot} {c c' : Cache} {r : Request}

theorem Takes.sound (h : c.Takes i s r c') (hc : c.Sound p i) : c'.Sound p i :=
  ⟨h.tags ▸ hc.tags, h.tags ▸ hc.geometry, h.above.trans hc.above, h.below.trans hc.below,
    h.side.trans hc.side⟩

theorem takes_of_takeFill? (h : c.takeFill? = some (r, c')) : c.Takes i (.fills i) r c' := by
  obtain ⟨⟨r', fills⟩, hpop, heq⟩ := Option.map_eq_some_iff.1 h
  cases heq
  exact ⟨traffic_pop_fills c (GatedQueue.popReady?_eq_some_iff.1 hpop).1, rfl, rfl, rfl, rfl, rfl⟩

theorem takes_of_takeSend? (h : c.takeSend? = some (r, c')) : c.Takes i (.sends i) r c' := by
  obtain ⟨⟨r', sends⟩, hpop, heq⟩ := Option.map_eq_some_iff.1 h
  cases heq
  exact ⟨traffic_pop_sends c (GatedQueue.popReady?_eq_some_iff.1 hpop).1, rfl, rfl, rfl, rfl, rfl⟩

theorem takes_of_takeLookup? (h : c.takeLookup? = some (r, c')) :
    c.Takes i (.lookups i) r c' := by
  obtain ⟨⟨r', lookups⟩, hpop, heq⟩ := Option.map_eq_some_iff.1 h
  cases heq
  exact ⟨traffic_pop_lookups c (GatedQueue.popReady?_eq_some_iff.1 hpop).1, rfl, rfl, rfl, rfl,
    rfl⟩

end Cache

namespace Machine

variable {p : Plan} {m : Machine} {i now : Nat} {r : Request} {completions : List Completion}

theorem drain_ends {take? : Cache → Option (Request × Cache)} {one : Request → Action Unit}
    {s : Spot} (hi : i < p.topology.size)
    (htake : ∀ c r c', take? c = some (r, c') → c.Takes i s r c')
    (hone : ∀ r m, Tracks p (Context.hold { now, completions } s r) m →
      Ends (fun _ => Tracks p { now, completions }) (Fails p) (one r m)) (n : Nat)
    (h : Tracks p { now, completions } m) :
    Ends (fun _ => Tracks p { now, completions }) (Fails p) (drain i take? one n m) := by
  induction n generalizing m with
  | zero => exact h
  | succ n ih =>
    obtain ⟨c, hc, hsound⟩ := h.sound.exists_cache hi
    refine Ends.bind (cacheAt_ends hc ?_)
    cases htook : take? c with
    | none => exact h
    | some v =>
      obtain ⟨r, c'⟩ := v
      have htakes := htake c r c' htook
      have htaken := h.take hc (htakes.sound hsound) htakes.traffic htakes.tags htakes.expected
      refine Ends.bind (setCache_ends (Ends.seq (hone r _ htaken) ?_))
      intro _ m' h'
      exact ih h'

theorem fillStage_ends (hi : i < p.topology.size) (h : Tracks p { now, completions } m) :
    Ends (fun _ => Tracks p { now, completions }) (Fails p) (fillStage i m) := by
  obtain ⟨c, hc, -⟩ := h.sound.exists_cache hi
  refine Ends.bind (cacheAt_ends hc ?_)
  exact drain_ends hi (fun _ _ _ => Cache.takes_of_takeFill?) (fun _ _ => fillOne_ends hi) _ h

theorem sendStage_ends (hi : i < p.topology.size) (h : Tracks p { now, completions } m) :
    Ends (fun _ => Tracks p { now, completions }) (Fails p) (sendStage i m) := by
  obtain ⟨c, hc, -⟩ := h.sound.exists_cache hi
  refine Ends.bind (cacheAt_ends hc ?_)
  exact drain_ends hi (fun _ _ _ => Cache.takes_of_takeSend?) (fun _ _ => sendOne_ends hi) _ h

theorem lookUpStage_ends (hi : i < p.topology.size) (h : Tracks p { now, completions } m) :
    Ends (fun _ => Tracks p { now, completions }) (Fails p) (lookUpStage i m) := by
  obtain ⟨c, hc, -⟩ := h.sound.exists_cache hi
  refine Ends.bind (cacheAt_ends hc ?_)
  exact drain_ends hi (fun _ _ _ => Cache.takes_of_takeLookup?) (fun _ _ => lookUpOne_ends hi) _ h

theorem advanceCache_ends (hi : i < p.topology.size) (h : Tracks p { now, completions } m) :
    Ends (fun _ => Tracks p { now, completions }) (Fails p) (advanceCache i m) := by
  obtain ⟨c, hc, hsound⟩ := h.sound.exists_cache hi
  refine Ends.bind (cacheAt_ends hc (Ends.bind (Ends.attempt_add (setCache_ends ?_) ?_)))
  · refine ⟨h.sound.put (hsound.congr rfl rfl rfl rfl),
      ?_⟩
    rw [overview_put_queues hc _ (by rfl) (by rfl), traffic_put_same hc _ (by rfl)]
    exact h.reach
  · intro hlimit
    refine .late (.inr ⟨c, List.mem_of_getElem? hc, ?_⟩)
    exact hlimit.trans (Nat.add_le_add_left (Nat.le_max_right ..) _)

theorem runCache_ends (hi : i < p.topology.size) (h : Tracks p { now, completions } m) :
    Ends (fun _ => Tracks p { now, completions }) (Fails p) (runCache i m) := by
  refine Ends.seq (releaseStage_ends hi h) fun _ _ h => ?_
  refine Ends.seq (fillStage_ends hi h) fun _ _ h => ?_
  refine Ends.seq (sendStage_ends hi h) fun _ _ h => ?_
  refine Ends.seq (lookUpStage_ends hi h) fun _ _ h => ?_
  exact advanceCache_ends hi h

theorem memoryAbsorb_ends (hr : r.kind = .writeBack)
    (h : Tracks p (Context.hold { now, completions } .memory r) m) :
    Ends (fun _ => Tracks p { now, completions }) (Fails p) (memoryAbsorb r m) := by
  have ht := Tracks.traffic_hold m { now, completions } .memory r
  have hexpected : r.id ∈ (m.memory.expected.ids : Multiset Nat) :=
    h.reach.orderly.mem_expected (mem_of_eq_cons ht) hr rfl
  obtain ⟨note, expected, hsettle, -, hids⟩ := WriteBackLedger.settle?_of_mem hexpected
  have habsorbed := h.reach.step (.memoryAbsorb ht hr)
  apply Ends.get_bind
  rw [hsettle]
  refine Ends.bind (Ends.attempt_add (Ends.set_bind (record_ends ?_)) ?_)
  · refine ⟨h.sound.congr rfl rfl, ?_⟩
    have hmemory : expectedAt { m with
        memory := { m.memory with expected, writeBacks := m.memory.writeBacks + 1 } } =
        (m.overview (Context.hold { now, completions } .memory r)).settle .memory r.id := by
      rw [expectedAt_memory, hids]
      rfl
    rw [overview_noted, overview, hmemory]
    exact habsorbed
  · exact fun hlimit => h.fails (.inr (.inr hlimit))

theorem memoryRead_ends (hr : r.kind.isDemand = true)
    (h : Tracks p (Context.hold { now, completions } .memory r) m) :
    Ends (fun _ => Tracks p { now, completions }) (Fails p) (memoryRead r m) := by
  apply Ends.get_bind
  refine Ends.bind (Ends.attempt_add (Ends.set_bind ?_) fun hlimit =>
    h.fails (.inr (.inl hlimit)))
  rw [h.sound.above]
  cases hlast : p.topology.last? with
  | none =>
    have hmoved := h.reach.step
      (.move (Tracks.traffic_hold _ _ _ _) (.finish hlast hr) r.readyAt r.dirty true
        (fun _ => Spot.noConfusion) fun _ => Spot.noConfusion)
    have hdone : Tracks p (Context.hold { now, completions } .finished r.finish)
        (m.counting .memory) := by
      refine ⟨h.sound.congr rfl rfl, ?_⟩
      rw [Tracks.overview_hold]
      exact hmoved
    exact hdone.finish
  | some i =>
    have hi : i < p.topology.size := by
      rcases Topology.mem_tops_or_base?_of_last? hlast with ⟨htop, -⟩ | hbase
      · exact Topology.lt_size_of_mem_tops htop
      · exact Topology.lt_size_of_base? hbase
    obtain ⟨c, hc, hsound⟩ := h.sound.exists_cache hi
    refine Ends.bind (cacheAt_ends hc (Ends.bind (acceptFill_ends hc fun readyAt => ?_)))
    refine setCache_ends (h.handTo (.read hlast hr) (fun _ => Spot.noConfusion)
      Spot.noConfusion hc ?_ (traffic_push_fills c) rfl rfl)
    exact hsound.congr rfl rfl rfl rfl

theorem memoryOne_ends (h : Tracks p (Context.hold { now, completions } .memory r) m) :
    Ends (fun _ => Tracks p { now, completions }) (Fails p) (memoryOne r m) := by
  have hfits := (h.reach.orderly.admits _ (mem_of_eq_cons (Tracks.traffic_hold ..))).fits
  unfold memoryOne
  split
  · rename_i hkind
    exact memoryAbsorb_ends (AccessKind.isWriteBack_iff.1 hkind) h
  · rename_i hkind
    refine memoryRead_ends ?_ h
    rcases hfits with ⟨hdemand, -⟩ | ⟨hwriteBack, -⟩
    · exact hdemand
    · exact absurd (AccessKind.isWriteBack_iff.2 hwriteBack) hkind

theorem tracks_take {memory : Memory} (htake : m.memory.take? = some (r, memory))
    (h : Tracks p { now, completions } m) :
    Tracks p (Context.hold { now, completions } .memory r) { m with memory } := by
  obtain ⟨⟨r', queue⟩, hpop, heq⟩ := Option.map_eq_some_iff.1 htake
  cases heq
  have hitems := (GatedQueue.popReady?_eq_some_iff.1 hpop).1
  refine ⟨h.sound.congr rfl rfl, ?_⟩
  have hsame : overview { m with memory := { m.memory with queue } }
      (Context.hold { now, completions } .memory r) = m.overview { now, completions } := by
    rw [Tracks.overview_hold]
    simp only [overview, traffic, hitems, List.map_cons, ← Multiset.cons_coe, Multiset.cons_add,
      Multiset.add_cons]
    rfl
  rw [hsame]
  exact h.reach

theorem answerReady_ends (n : Nat) (h : Tracks p { now, completions } m) :
    Ends (fun _ => Tracks p { now, completions }) (Fails p) (answerReady n m) := by
  induction n generalizing m with
  | zero => exact h
  | succ n ih =>
    apply Ends.get_bind
    cases htake : m.memory.take? with
    | none => exact h
    | some v =>
      refine Ends.modify_bind (Ends.seq (memoryOne_ends (tracks_take htake h)) ?_)
      intro _ m' h'
      exact ih h'

theorem runMemory_ends (h : Tracks p { now, completions } m) :
    Ends (fun _ m' => Tracks p { now, completions } m' ∧ now < m'.memory.cycle) (Fails p)
      (runMemory m) := by
  refine Ends.get_bind (Ends.seq (answerReady_ends _ h) fun _ m' h' => ?_)
  refine Ends.get_bind (Ends.bind (Ends.attempt_add ?_ fun hlimit => ?_))
  · refine ⟨⟨h'.sound.congr rfl rfl, h'.reach.step .tick⟩, ?_⟩
    exact Nat.lt_succ_of_le h'.reach.orderly.now_le
  · exact .late (.inl (hlimit.trans (Nat.add_le_add_left (Nat.le_max_right ..) _)))

theorem runCycle_ends (h : Tracks p { now, completions } m) :
    Ends (fun _ m' => Tracks p { now, completions } m' ∧ now < m'.memory.cycle) (Fails p)
      (runCycle m) := by
  let I (rest : List Nat) (m : Machine) : Prop :=
    Tracks p { now, completions } m ∧ ∀ i ∈ rest, i < p.topology.size
  have hstart : I (List.range m.caches.length) m := by
    refine ⟨h, fun i hi => ?_⟩
    rw [← h.sound.length]
    exact List.mem_range.1 hi
  refine Ends.get_bind (Ends.seq (Ends.forM (I := I) ?_ hstart) fun _ m' h' => runMemory_ends h'.1)
  rintro i rest m ⟨h, hlt⟩
  refine (runCache_ends (hlt i List.mem_cons_self) h).mono ?_ fun _ _ => id
  exact fun _ m' h' => ⟨h', fun j hj => hlt j (List.mem_cons_of_mem _ hj)⟩

end Machine

end CacheHierarchy
