import CacheHierarchy.Proofs.Overtaking.Actions
import CacheHierarchy.Proofs.Watch.Runs

/-!
# Marks over a cycle

A stage keeps the marks as they are to be, and with them the machine tracked: which requests go up,
and which lines are not resident, is known of a machine that is tracked.
-/

namespace CacheHierarchy

namespace Machine

open Watch

variable {p : Plan} {m : Machine} {i b lineSize now : Nat} {r : Request} {c c' : Cache}
  {completions : List Completion}

section

variable (hb : p.topology.base? = some b) (huniform : p.Uniform lineSize)
  (hi : i < p.topology.size)

include hb

theorem movesLine_top (hi : i ∈ p.topology.tops) (addr : Nat) (dirty : Bool) (cycle : Nat) :
    (Event.evicted i addr dirty cycle).movesLine b = false :=
  beq_eq_false_iff_ne.2 (Topology.top_ne_base hi hb)

include huniform hi

theorem fillOne_marks (h : Tracks p (Context.hold { now, completions } (.fills i) r) m)
    (hmarks : m.Marks b lineSize nothingDue) :
    Yields (fun _ m' => m'.Marks b lineSize nothingDue) (fillOne i r m) := by
  have htags : (waiting b []).OverlooksTags i := waiting.overlooksTags_of_not_mem List.not_mem_nil
  have hfits := (h.reach.orderly.admits _ (mem_of_eq_cons (Tracks.traffic_hold ..))).fits
  unfold fillOne
  split
  · exact hmarks.seq (unseen_absorb htags (waiting.overlooksExpected i) r)
  · rename_i hkind
    refine Ends.bind (cacheAt_yields fun c hc => ?_)
    rw [(h.sound.caches i c hc).above]
    rcases Topology.lt_size_iff.1 hi with htop | hbase
    · rw [Topology.above_top htop]
      exact hmarks.seq (unseen_fillTop htags waiting.overlooksExpected (waiting.overlooksSends i)
        (movesLine_top hb htop) (fun _ _ => rfl) r)
    · obtain ⟨ports, hports, -⟩ := Topology.above_base hbase
      obtain rfl : i = b := Option.some.inj (hbase.symm.trans hb)
      rw [hports]
      refine fillBelow_marks hb hports huniform ?_ h hmarks
      rcases hfits with hpass | ⟨hwriteBack, -⟩
      · exact hpass.isDemand
      · exact absurd (AccessKind.isWriteBack_iff.2 hwriteBack) hkind

omit huniform in
theorem sendOne_marks (h : Tracks p (Context.hold { now, completions } (.sends i) r) m)
    (hmarks : m.Marks b lineSize nothingDue) :
    Yields (fun _ m' => m'.Marks b lineSize nothingDue) (sendOne i r m) := by
  obtain ⟨c, hc, hsound⟩ := h.sound.exists_cache hi
  have hbelow : ∀ j, c.below = .cache j →
      (waiting b []).OverlooksFills j ∧ (waiting b []).OverlooksLookups j := by
    intro j hj
    rw [hsound.below] at hj
    obtain rfl : j = b := Option.some.inj ((Topology.base?_of_below hj).1.symm.trans hb)
    exact ⟨waiting.overlooksFills j [], waiting.overlooksLookups j⟩
  exact (sendOne_same hc (fun _ _ => rfl) hbelow r).mono (fun _ _ => hmarks.same) fun _ _ => id

omit huniform in
theorem lookUpOne_marks (h : Tracks p (Context.hold { now, completions } (.lookups i) r) m)
    (hmarks : m.Marks b lineSize nothingDue) :
    Yields (fun _ m' => m'.Marks b lineSize nothingDue) (lookUpOne i r m) := by
  have htags : (waiting b []).OverlooksTags i := waiting.overlooksTags_of_not_mem List.not_mem_nil
  refine Ends.bind (cacheAt_yields fun c hc => ?_)
  have hsound := h.sound.caches i c hc
  rw [hsound.above]
  rcases Topology.lt_size_iff.1 hi with htop | hbase
  · rw [Topology.above_top htop]
    exact hmarks.seq (unseen_lookUpTop htags (waiting.overlooksSends i) (fun _ _ _ => rfl) r)
  · obtain ⟨ports, hports, -⟩ := Topology.above_base hbase
    obtain rfl : i = b := Option.some.inj (hbase.symm.trans hb)
    rw [hports]
    exact lookUpBelow_marks hb h hmarks

end

theorem drain_marks {take? : Cache → Option (Request × Cache)} {one : Request → Action Unit}
    {s : Spot}
    (htake : ∀ c r c', take? c = some (r, c') →
      c.Takes i s r c' ∧ c'.fills.items.Sublist c.fills.items)
    (hends : ∀ r m, Tracks p (Context.hold { now, completions } s r) m →
      Ends (fun _ => Tracks p { now, completions }) (Fails p) (one r m))
    (hone : ∀ r m, Tracks p (Context.hold { now, completions } s r) m →
      m.Marks b lineSize nothingDue →
        Yields (fun _ m' => m'.Marks b lineSize nothingDue) (one r m)) (n : Nat)
    (h : Tracks p { now, completions } m) (hmarks : m.Marks b lineSize nothingDue) :
    Yields (fun _ m' => m'.Marks b lineSize nothingDue) (drain i take? one n m) := by
  let I (_ : Nat) (m : Machine) : Prop :=
    Tracks p { now, completions } m ∧ m.Marks b lineSize nothingDue
  refine (drain_yields (I := I) (fun _ _ _ h _ _ => h) ?_ n ⟨h, hmarks⟩).mono (fun _ _ h => h.2)
    fun _ _ => id
  rintro n m c r c' ⟨h, hmarks⟩ hc htook
  obtain ⟨htakes, hfills⟩ := htake c r c' htook
  have htaken := h.take hc (htakes.sound (h.sound.caches i c hc)) htakes.traffic htakes.tags
    htakes.expected
  exact ((hends r _ htaken).and (hone r _ htaken (hmarks.sublist hc hfills))).yields

section

variable (hb : p.topology.base? = some b) (hi : i < p.topology.size)
  (h : Tracks p { now, completions } m) (hmarks : m.Marks b lineSize nothingDue)

include hb hi h hmarks

theorem fillStage_marks (huniform : p.Uniform lineSize) :
    Yields (fun _ m' => m'.Marks b lineSize nothingDue) (fillStage i m) := by
  refine Ends.bind (cacheAt_yields fun c _ => ?_)
  refine drain_marks (fun c r c' htake => ⟨Cache.takes_of_takeFill? htake, ?_⟩)
    (fun r m => fillOne_ends hi) (fun r m => fillOne_marks hb huniform hi) _ h hmarks
  obtain ⟨⟨r', fills⟩, hpop, heq⟩ := Option.map_eq_some_iff.1 htake
  cases heq
  exact GatedQueue.sublist_of_popReady? hpop

theorem sendStage_marks : Yields (fun _ m' => m'.Marks b lineSize nothingDue) (sendStage i m) := by
  refine Ends.bind (cacheAt_yields fun c _ => ?_)
  refine drain_marks (fun c r c' htake => ⟨Cache.takes_of_takeSend? htake, ?_⟩)
    (fun r m => sendOne_ends hi) (fun r m => sendOne_marks hb hi) _ h hmarks
  obtain ⟨taken, -, heq⟩ := Option.map_eq_some_iff.1 htake
  cases heq
  exact List.Sublist.refl _

theorem lookUpStage_marks :
    Yields (fun _ m' => m'.Marks b lineSize nothingDue) (lookUpStage i m) := by
  refine Ends.bind (cacheAt_yields fun c _ => ?_)
  refine drain_marks (fun c r c' htake => ⟨Cache.takes_of_takeLookup? htake, ?_⟩)
    (fun r m => lookUpOne_ends hi) (fun r m => lookUpOne_marks hb hi) _ h hmarks
  obtain ⟨taken, -, heq⟩ := Option.map_eq_some_iff.1 htake
  cases heq
  exact List.Sublist.refl _

theorem runCache_marks (huniform : p.Uniform lineSize) :
    Yields (fun _ m' => m'.Marks b lineSize nothingDue) (runCache i m) := by
  have hrelease : Yields (fun _ m' => m'.Marks b lineSize nothingDue) (releaseStage i m) :=
    hmarks.seq (unseen_update fun c m hc => setCache_ends (Same.put hc rfl))
  refine Ends.seq ((releaseStage_ends hi h).and hrelease).yields ?_
  rintro - m ⟨h, hmarks⟩
  refine Ends.seq ((fillStage_ends hi h).and (fillStage_marks hb hi h hmarks huniform)).yields ?_
  rintro - m ⟨h, hmarks⟩
  refine Ends.seq ((sendStage_ends hi h).and (sendStage_marks hb hi h hmarks)).yields ?_
  rintro - m ⟨h, hmarks⟩
  refine Ends.seq (lookUpStage_marks hb hi h hmarks) fun _ m hmarks => ?_
  exact hmarks.seq (unseen_update fun c m hc =>
    Ends.bind (Yields.attempt fun _ _ => setCache_ends (Same.put hc rfl)))

omit hi in
theorem runMemory_marks : Yields (fun _ m' => m'.Marks b lineSize nothingDue) (runMemory m) := by
  let I (m : Machine) : Prop := Tracks p { now, completions } m ∧ m.Marks b lineSize nothingDue
  refine Ends.get_bind (Ends.seq (answerReady_yields (I := I) ?_ _ ⟨h, hmarks⟩) ?_)
  · rintro m r memory ⟨h, hmarks⟩ htake
    have htaken := tracks_take htake h
    have hleft : (waiting b []).Same m { m with memory } := Same.of_eq rfl rfl
    have habove : ∀ j, memory.above = some j → (waiting b []).OverlooksFills j := by
      intro j hj
      rw [htaken.sound.above, Topology.last?_of_base? hb] at hj
      obtain rfl : b = j := Option.some.inj hj
      exact waiting.overlooksFills b []
    have hanswered := (memoryOne_same habove r).mono (fun _ _ => (hmarks.same hleft).same)
      fun _ _ => id
    exact ((memoryOne_ends htaken).and hanswered).yields
  · rintro - m ⟨-, hmarks⟩
    exact hmarks.seq unseen_advanceMemory

omit hi in
theorem runCycle_marks (huniform : p.Uniform lineSize) :
    Yields (fun _ m' => m'.Marks b lineSize nothingDue) (runCycle m) := by
  let I (rest : List Nat) (m : Machine) : Prop := (∀ i ∈ rest, i < p.topology.size) ∧
    Tracks p { now, completions } m ∧ m.Marks b lineSize nothingDue
  have hstart : I (List.range m.caches.length) m :=
    ⟨fun i hi => h.sound.length ▸ List.mem_range.1 hi, h, hmarks⟩
  refine Ends.get_bind (Ends.seq (Ends.forM (I := I) ?_ hstart) ?_)
  · rintro i rest m ⟨hlt, h, hmarks⟩
    have hi := hlt i List.mem_cons_self
    refine ((runCache_ends hi h).and (runCache_marks hb hi h hmarks huniform)).yields.mono ?_
      fun _ _ => id
    exact fun _ m' h' => ⟨fun j hj => hlt j (List.mem_cons_of_mem _ hj), h'⟩
  · rintro - m ⟨-, h, hmarks⟩
    exact runMemory_marks hb h hmarks

end

end Machine

namespace Hierarchy

variable {p : Plan} {h : Hierarchy} {b lineSize : Nat}

theorem perform_marks (hb : p.topology.base? = some b) (huniform : p.Uniform lineSize)
    (command : Command) (h' : h.Tracked p)
    (hmarks : h.machine.Marks b lineSize Machine.nothingDue) :
    Yields (fun _ s => s.machine.Marks b lineSize Machine.nothingDue) (perform command h) := by
  cases command with
  | access addr kind haddr hkind =>
    exact (access_same (w := waiting b []) waiting.overlooksLookups hkind).mono
      (fun _ _ hs => hmarks.same hs.1) fun _ _ => id
  | cycle =>
    exact (runCycle_yields (w := waiting b []) (Machine.runCycle_marks hb h'.tracks hmarks huniform)
      fun _ _ hm hsame => hm.same hsame).mono (fun _ _ hs => hs.1) fun _ _ => id

/-- Every run keeps the marks as they are to be. -/
theorem run_marks (hb : p.topology.base? = some b) (huniform : p.Uniform lineSize)
    (commands : List Command) (h' : h.Tracked p)
    (hmarks : h.machine.Marks b lineSize Machine.nothingDue) :
    Yields (fun _ s => s.machine.Marks b lineSize Machine.nothingDue) (run commands h) := by
  let I (_ : List Command) (s : Hierarchy) : Prop :=
    s.Tracked p ∧ s.machine.Marks b lineSize Machine.nothingDue
  refine (Ends.forM (I := I) ?_ ⟨h', hmarks⟩).mono (fun _ _ hs => hs.2) fun _ _ => id
  rintro command rest s ⟨hs, hmarks⟩
  exact ((perform_ends command hs).and (perform_marks hb huniform command hs hmarks)).yields

end Hierarchy

end CacheHierarchy
