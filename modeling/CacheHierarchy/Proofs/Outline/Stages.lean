import CacheHierarchy.Proofs.Execution.Cycles
import CacheHierarchy.Proofs.Outline.Requests

/-!
# Stages and cycles in outline

A stage deals with one request after the other. As queues are in the order of time, it takes the
same demand requests out of a queue whatever write-backs stand between them, so a stage, the turn of
a component and a cycle are the functions of outlines with these names.
-/

namespace CacheHierarchy

variable {α : Type}

namespace Machine

variable {v : Vantage α} {asked : Nat → List Bool} {o : Outline α} {m : Machine} {i n : Nat}
  {s : Spot} {r : Request}

/-- A machine is tracked and has an outline. -/
structure Shows (v : Vantage α) (o : Outline α) (m : Machine) : Prop where
  tracks : Tracks v.plan v.context m
  outlined : ∃ asked, m.Outlined v none asked o

namespace Outlined

/-- Which queue is watched is a matter of choice. -/
theorem watch {w : Option (Spot × Nat)} (h : m.Outlined v w asked o) (s : Spot) :
    m.Outlined v (some (s, (m.itemsAt s).length)) asked o :=
  ⟨h.regular, h.unasked, h.asked, h.outline, fun _ _ hs => by
    cases hs
    exact le_rfl⟩

theorem unwatch {w : Option (Spot × Nat)} (h : m.Outlined v w asked o) :
    m.Outlined v none asked o :=
  ⟨h.regular, h.unasked, h.asked, h.outline, fun _ _ hs => by cases hs⟩

theorem next?_eq_none {w : Option (Spot × Nat)} (h : m.Outlined v w asked o) {site : Site}
    (hlate : ∀ r ∈ m.itemsAt s, o.clock site < r.readyAt) : o.next? s site = none := by
  rw [Outline.next?, Option.filter_eq_none_iff]
  intro e he
  have hmem := List.mem_of_mem_head? he
  rw [h.queue_eq, Request.mem_errands] at hmem
  obtain ⟨r, hr, -, rfl⟩ := hmem
  rw [decide_eq_true_iff, Nat.not_le]
  exact hlate r hr

end Outlined

theorem errands_tail {items rest : List Request} (hitems : items = r :: rest) :
    Request.errands v asked rest =
      if r.kind.isWriteBack then Request.errands v asked items
      else (Request.errands v asked items).tail := by
  subst hitems
  cases hr : r.kind.isWriteBack with
  | true => rw [Request.errands_cons_writeBack v asked rest hr, if_pos rfl]
  | false =>
    rw [Request.errands_cons_demand v asked rest hr, if_neg Bool.false_ne_true, List.tail_cons]

/-- In a queue in the order of time no request is ready if the head is not. -/
theorem late_of_popReady? {now : Nat} {q : GatedQueue Request}
    (hsorted : q.items.Pairwise fun r r' => r.readyAt ≤ r'.readyAt)
    (h : q.popReady? now = none) : ∀ r ∈ q.items, now < r.readyAt := by
  unfold GatedQueue.popReady? at h
  split at h
  · rename_i hitems
    simp [hitems]
  · rename_i head rest hitems
    split at h
    · cases h
    rename_i hready
    rw [Timed.isReady_iff, Request.timed_readyAt, Nat.not_le] at hready
    rw [hitems] at hsorted ⊢
    intro r hr
    rcases List.mem_cons.1 hr with rfl | hr
    · exact hready
    · exact hready.trans_le (List.rel_of_pairwise_cons hsorted hr)

/-- What a stage needs to know of the queue that it takes requests from. -/
structure Drains (p : Plan) (i : Nat) (s : Spot) (take? : Cache → Option (Request × Cache)) :
    Prop where
  late : ∀ {m : Machine} {c : Cache}, m.caches[i]? = some c → c.Regular p i → take? c = none →
    ∀ r ∈ m.itemsAt s, c.cycle < r.readyAt
  takes : ∀ {c r c'}, take? c = some (r, c') → c.Takes i s r c'
  regular : ∀ {c r c'}, take? c = some (r, c') → c.Regular p i → c'.Regular p i
  clock : ∀ {c r c'}, take? c = some (r, c') →
    c'.cycle = c.cycle ∧ c'.latency = c.latency ∧ r.readyAt ≤ c.cycle
  items : ∀ {m : Machine} {c r c'}, m.caches[i]? = some c → take? c = some (r, c') →
    ∃ rest, m.itemsAt s = r :: rest ∧ (m.put i c').itemsAt = Function.update m.itemsAt s rest

theorem drains_fills (p : Plan) (i : Nat) : Drains p i (.fills i) Cache.takeFill? where
  late := fun {m c} hc hregular htake => by
    rw [itemsAt, view_eq hc]
    exact late_of_popReady? hregular.fills.sorted (Option.map_eq_none_iff.1 htake)
  takes := Cache.takes_of_takeFill?
  regular := fun {c r c'} htake hregular => by
    obtain ⟨⟨r', fills⟩, hpop, heq⟩ := Option.map_eq_some_iff.1 htake
    cases heq
    exact { hregular with
      fills := hregular.fills.sublist (GatedQueue.sublist_of_popReady? hpop) }
  clock := fun {c r c'} htake => by
    obtain ⟨⟨r', fills⟩, hpop, heq⟩ := Option.map_eq_some_iff.1 htake
    cases heq
    exact ⟨rfl, rfl, Timed.isReady_iff.1 (GatedQueue.popReady?_eq_some_iff.1 hpop).2⟩
  items := fun {m c r c'} hc htake => by
    obtain ⟨⟨r', fills⟩, hpop, heq⟩ := Option.map_eq_some_iff.1 htake
    cases heq
    refine ⟨fills.items, ?_, itemsAt_put_fills hc _⟩
    rw [itemsAt, view_eq hc, (GatedQueue.popReady?_eq_some_iff.1 hpop).1]

theorem drains_sends (p : Plan) (i : Nat) : Drains p i (.sends i) Cache.takeSend? where
  late := fun {m c} hc hregular htake => by
    have hpop := Option.map_eq_none_iff.1 htake
    rw [itemsAt, view_eq hc]
    -- all that stands in a send queue is ready, so the queue is empty
    cases hitems : c.sends.items with
    | nil => simp
    | cons r rest =>
      have hready := hregular.sends r (hitems ▸ List.mem_cons_self)
      simp [GatedQueue.popReady?, hitems, Timed.isReady, hready] at hpop
  takes := Cache.takes_of_takeSend?
  regular := fun {c r c'} htake hregular => by
    obtain ⟨⟨r', sends⟩, hpop, heq⟩ := Option.map_eq_some_iff.1 htake
    cases heq
    exact { hregular with
      sends := fun r hr => hregular.sends r ((GatedQueue.sublist_of_popReady? hpop).subset hr) }
  clock := fun {c r c'} htake => by
    obtain ⟨⟨r', sends⟩, hpop, heq⟩ := Option.map_eq_some_iff.1 htake
    cases heq
    exact ⟨rfl, rfl, Timed.isReady_iff.1 (GatedQueue.popReady?_eq_some_iff.1 hpop).2⟩
  items := fun {m c r c'} hc htake => by
    obtain ⟨⟨r', sends⟩, hpop, heq⟩ := Option.map_eq_some_iff.1 htake
    cases heq
    refine ⟨sends.items, ?_, itemsAt_put_sends hc _⟩
    rw [itemsAt, view_eq hc, (GatedQueue.popReady?_eq_some_iff.1 hpop).1]

theorem drains_lookups (p : Plan) (i : Nat) : Drains p i (.lookups i) Cache.takeLookup? where
  late := fun {m c} hc hregular htake => by
    rw [itemsAt, view_eq hc]
    exact late_of_popReady? hregular.lookups.sorted (Option.map_eq_none_iff.1 htake)
  takes := Cache.takes_of_takeLookup?
  regular := fun {c r c'} htake hregular => by
    obtain ⟨⟨r', lookups⟩, hpop, heq⟩ := Option.map_eq_some_iff.1 htake
    cases heq
    exact { hregular with
      lookups := hregular.lookups.sublist (GatedQueue.sublist_of_popReady? hpop) }
  clock := fun {c r c'} htake => by
    obtain ⟨⟨r', lookups⟩, hpop, heq⟩ := Option.map_eq_some_iff.1 htake
    cases heq
    exact ⟨rfl, rfl, Timed.isReady_iff.1 (GatedQueue.popReady?_eq_some_iff.1 hpop).2⟩
  items := fun {m c r c'} hc htake => by
    obtain ⟨⟨r', lookups⟩, hpop, heq⟩ := Option.map_eq_some_iff.1 htake
    cases heq
    refine ⟨lookups.items, ?_, itemsAt_put_lookups hc _⟩
    rw [itemsAt, view_eq hc, (GatedQueue.popReady?_eq_some_iff.1 hpop).1]

theorem Outlined.take {take? : Cache → Option (Request × Cache)} {c c' : Cache}
    (hdrains : Drains v.plan i s take?) (hc : m.caches[i]? = some c)
    (htake : take? c = some (r, c')) (h : m.Outlined v (some (s, n + 1)) asked o) :
    (m.put i c').Outlined v (some (s, n)) asked (if r.kind.isWriteBack then o else o.pop s) := by
  obtain ⟨rest, hitems, hput⟩ := hdrains.items hc htake
  obtain ⟨hcycle, hlatency, -⟩ := hdrains.clock htake
  have htaken := h.put_queue c' s rest (some (s, n)) hc
    (hdrains.regular htake (h.regular.caches i c hc)) (hdrains.takes htake).tags hcycle hlatency
    hput fun s' k hs => by
      cases hs
      have hlength := h.length_le s (n + 1) rfl
      rw [hitems, List.length_cons] at hlength
      rw [Function.update_self]
      omega
  rw [errands_tail hitems, ← h.queue_eq] at htaken
  cases hr : r.kind.isWriteBack with
  | true =>
    rw [hr, if_pos rfl, Function.update_eq_self] at htaken
    exact htaken
  | false =>
    rw [hr, if_neg Bool.false_ne_true] at htaken
    exact htaken

theorem Outlined.next?_eq_some {w : Option (Spot × Nat)} (h : m.Outlined v w asked o)
    {site : Site} {rest : List Request} (hitems : m.itemsAt s = r :: rest)
    (hr : r.kind.isWriteBack = false) (hready : r.readyAt ≤ o.clock site) :
    o.next? s site = some (r.errand v asked) := by
  rw [Outline.next?, h.queue_eq, hitems, Request.errands_cons_demand v asked rest hr,
    List.head?_cons, Option.filter_some, if_pos]
  exact decide_eq_true hready

/-- A stage deals with the demand requests of a queue as it does in outline. -/
theorem drain_outlined {take? : Cache → Option (Request × Cache)} {one : Request → Action Unit}
    {f : Errand α → Outline α → Outline α} (hi : i < v.plan.topology.size)
    (hdrains : Drains v.plan i s take?)
    (hends : ∀ r m, Tracks v.plan (v.context.hold s r) m →
      Ends (fun _ => Tracks v.plan v.context) (Fails v.plan) (one r m))
    (hone : ∀ r m asked o n, Tracks v.plan (v.context.hold s r) m →
      r.readyAt ≤ o.clock (.cache i) → m.Outlined v (some (s, n)) asked o →
      Yields (fun _ m' => ∃ asked', m'.Outlined v (some (s, n)) asked'
        (if r.kind.isWriteBack then o else f (r.errand v asked) o)) (one r m))
    (hf : ∀ r asked o, ((f (Request.errand v asked r) o).queue s).length = (o.queue s).length) {k : Nat}
    (hk : (o.queue s).length ≤ k) (htracks : Tracks v.plan v.context m)
    (h : m.Outlined v (some (s, n)) asked o) :
    Yields (fun _ m' => m'.Shows v (o.drain s (.cache i) f k)) (drain i take? one n m) := by
  induction n generalizing m asked o k with
  | zero =>
    have hitems : m.itemsAt s = [] := List.length_eq_zero_iff.1 (Nat.le_zero.1 (h.length_le s 0 rfl))
    rw [Outline.drain_of_next?_eq_none (h.next?_eq_none (by simp [hitems]))]
    exact ⟨htracks, asked, h.unwatch⟩
  | succ n ih =>
    obtain ⟨c, hc, hsound⟩ := htracks.sound.exists_cache hi
    refine Ends.bind (cacheAt_ends hc ?_)
    have hclock := h.clock_eq hc
    cases htake : take? c with
    | none =>
      rw [Outline.drain_of_next?_eq_none (h.next?_eq_none (hclock ▸
        hdrains.late hc (h.regular.caches i c hc) htake))]
      exact ⟨htracks, asked, h.unwatch⟩
    | some taken =>
      obtain ⟨r, c'⟩ := taken
      have htakes := hdrains.takes htake
      obtain ⟨rest, hitems, -⟩ := hdrains.items hc htake
      obtain ⟨-, -, hready⟩ := hdrains.clock htake
      rw [← hclock] at hready
      have hheld := htracks.take hc (htakes.sound hsound) htakes.traffic htakes.tags htakes.expected
      have htaken := h.take hdrains hc htake
      refine Ends.bind (setCache_ends ?_)
      cases hr : r.kind.isWriteBack with
      | true =>
        rw [hr, if_pos rfl] at htaken
        have hdealt := hone r _ asked o n hheld hready htaken
        rw [hr, if_pos rfl] at hdealt
        refine Ends.seq ((hends r _ hheld).and hdealt).yields ?_
        rintro - m' ⟨htracks', asked', h'⟩
        exact ih hk htracks' h'
      | false =>
        rw [hr, if_neg Bool.false_ne_true] at htaken
        have hdealt := hone r _ asked (o.pop s) n hheld hready htaken
        rw [hr, if_neg Bool.false_ne_true] at hdealt
        have hlength : (o.queue s).length = ((o.pop s).queue s).length + 1 := by
          rw [Outline.queue_pop, h.queue_eq, hitems,
            Request.errands_cons_demand v asked rest hr]
          rfl
        obtain ⟨k, rfl⟩ : ∃ k', k = k' + 1 := ⟨k - 1, by omega⟩
        rw [Outline.drain, h.next?_eq_some hitems hr hready]
        refine Ends.seq ((hends r _ hheld).and hdealt).yields ?_
        rintro - m' ⟨htracks', asked', h'⟩
        refine ih ?_ htracks' h'
        rw [hf]
        omega

/-! The stages of a cache. -/

theorem releaseStage_outlined (h : m.Outlined v none asked o) :
    Yields (fun _ m' => m'.Outlined v none asked o) (releaseStage i m) := by
  refine Ends.bind (cacheAt_yields fun c hc => setCache_ends ?_)
  have hregular := h.regular.caches i c hc
  have hsent := h.put_writeBacks { c with sends := c.sends.append c.writeBacks.items } (.sends i)
    (c.sends.items ++ c.writeBacks.items) hc
    { hregular with
      sends := by
        simp only [GatedQueue.items_append, List.mem_append]
        rintro r (hr | hr)
        · exact hregular.sends r hr
        · exact (hregular.writeBacks r hr).2 } rfl rfl rfl
    (itemsAt_put_sends hc _) (by
      rw [itemsAt, view_eq hc, List.filter_append, List.append_right_eq_self,
        List.filter_eq_nil_iff]
      intro r hr
      simp [(hregular.writeBacks r hr).1]) fun _ hw => by cases hw
  have hc' := caches_put_self hc { c with sends := c.sends.append c.writeBacks.items }
  have hregular' := hsent.regular.caches i _ hc'
  have hreleased := hsent.put_writeBacks
    { c with sends := c.sends.append c.writeBacks.items, writeBacks := {} } (.writeBacks i) [] hc'
    { hregular' with writeBacks := by simp } rfl rfl rfl (itemsAt_put_writeBacks hc' _) (by
      rw [itemsAt, view_eq hc', List.filter_nil, eq_comm, List.filter_eq_nil_iff]
      intro r hr
      simp [(hregular.writeBacks r hr).1]) fun _ hw => by cases hw
  rwa [put_put] at hreleased

theorem fillStage_outlined (hi : i < v.plan.topology.size) (h : m.Shows v o) :
    Yields (fun _ m' => m'.Shows v (o.stage (.fills i) (.cache i) (Outline.fillOne v.plan i)))
      (fillStage i m) := by
  obtain ⟨htracks, asked, h⟩ := h
  refine Ends.bind (cacheAt_yields fun c hc => ?_)
  have hwatched := h.watch (.fills i)
  rw [itemsAt, view_eq hc] at hwatched
  exact drain_outlined hi (drains_fills _ i) (fun _ _ => fillOne_ends hi)
    (fun _ _ _ _ _ htracks _ h =>
      (fillOne_outlined hi htracks h).mono (fun _ _ h' => ⟨_, h'⟩) fun _ _ => id)
    (fun _ _ _ => Outline.length_queue_fillOne fun hb => Topology.top_ne_of_base? hb _) le_rfl htracks hwatched

theorem sendStage_outlined (hi : i < v.plan.topology.size) (h : m.Shows v o) :
    Yields (fun _ m' => m'.Shows v (o.stage (.sends i) (.cache i) (Outline.sendOne v.plan i)))
      (sendStage i m) := by
  obtain ⟨htracks, asked, h⟩ := h
  refine Ends.bind (cacheAt_yields fun c hc => ?_)
  have hwatched := h.watch (.sends i)
  rw [itemsAt, view_eq hc] at hwatched
  exact drain_outlined hi (drains_sends _ i) (fun _ _ => sendOne_ends hi)
    (fun _ _ _ _ _ _ _ h => (sendOne_outlined h).mono (fun _ _ h' => ⟨_, h'⟩) fun _ _ => id)
    (fun _ _ _ => Outline.length_queue_sendOne) le_rfl htracks hwatched

theorem lookUpStage_outlined (hi : i < v.plan.topology.size) (h : m.Shows v o) :
    Yields (fun _ m' => m'.Shows v
        (o.stage (.lookups i) (.cache i) (Outline.lookUpOne v.plan i)))
      (lookUpStage i m) := by
  obtain ⟨htracks, asked, h⟩ := h
  refine Ends.bind (cacheAt_yields fun c hc => ?_)
  have hwatched := h.watch (.lookups i)
  rw [itemsAt, view_eq hc] at hwatched
  exact drain_outlined hi (drains_lookups _ i) (fun _ _ => lookUpOne_ends hi)
    (fun _ _ _ _ _ htracks hready h => lookUpOne_outlined hi htracks hready h)
    (fun _ _ _ => Outline.length_queue_lookUpOne) le_rfl htracks hwatched

theorem advanceCache_outlined (h : m.Outlined v none asked o) :
    Yields (fun _ m' => m'.Outlined v none asked (o.advance (.cache i))) (advanceCache i m) :=
  Ends.bind (cacheAt_yields fun _ hc =>
    Ends.bind (Yields.attempt_add (setCache_ends (h.advance hc))))

theorem runCache_outlined (hi : i < v.plan.topology.size) (h : m.Shows v o) :
    Yields (fun _ m' => m'.Shows v (o.runCache v.plan i)) (runCache i m) := by
  obtain ⟨htracks, asked, h⟩ := h
  refine Ends.seq ((releaseStage_ends hi htracks).and (releaseStage_outlined h)).yields ?_
  rintro - m ⟨htracks, h⟩
  refine Ends.seq (fillStage_outlined hi ⟨htracks, asked, h⟩) fun _ m h => ?_
  refine Ends.seq (sendStage_outlined hi h) fun _ m h => ?_
  refine Ends.seq (lookUpStage_outlined hi h) fun _ m h => ?_
  obtain ⟨htracks, asked, h⟩ := h
  refine ((advanceCache_ends hi htracks).and (advanceCache_outlined h)).yields.mono ?_ fun _ _ => id
  rintro - m ⟨htracks, h⟩
  exact ⟨htracks, asked, h⟩

/-! The turn of memory. -/

theorem Outlined.take_memory {memory : Memory} (htake : m.memory.take? = some (r, memory))
    (h : m.Outlined v (some (.memory, n + 1)) asked o) :
    Outlined v (some (.memory, n)) asked (if r.kind.isWriteBack then o else o.pop .memory)
      { m with memory } := by
  obtain ⟨⟨r', queue⟩, hpop, heq⟩ := Option.map_eq_some_iff.1 htake
  cases heq
  have hitems : m.itemsAt .memory = r :: queue.items := (GatedQueue.popReady?_eq_some_iff.1 hpop).1
  have htaken := h.with_items { m with memory := { m.memory with queue } } .memory queue.items
    (some (.memory, n))
    ⟨h.regular.length, h.regular.caches,
      h.regular.memory.sublist (GatedQueue.sublist_of_popReady? hpop), h.regular.above⟩
    (by funext s; cases s <;> rfl) rfl rfl rfl fun s' k hs => by
      cases hs
      have hlength := h.length_le .memory (n + 1) rfl
      rw [hitems, List.length_cons] at hlength
      rw [Function.update_self]
      omega
  rw [errands_tail hitems, ← h.queue_eq] at htaken
  cases hr : r.kind.isWriteBack with
  | true =>
    rw [hr, if_pos rfl, Function.update_eq_self] at htaken
    exact htaken
  | false =>
    rw [hr, if_neg Bool.false_ne_true] at htaken
    exact htaken

theorem answerReady_outlined {k : Nat} (hk : (o.queue .memory).length ≤ k)
    (htracks : Tracks v.plan v.context m) (h : m.Outlined v (some (.memory, n)) asked o) :
    Yields (fun _ m' => m'.Shows v (o.drain .memory .memory (Outline.read v.plan) k))
      (answerReady n m) := by
  have hclock : o.clock .memory = m.memory.cycle := h.outline ▸ rfl
  induction n generalizing m o k with
  | zero =>
    have hitems : m.itemsAt .memory = [] :=
      List.length_eq_zero_iff.1 (Nat.le_zero.1 (h.length_le .memory 0 rfl))
    rw [Outline.drain_of_next?_eq_none (h.next?_eq_none (by simp [hitems]))]
    exact ⟨htracks, asked, h.unwatch⟩
  | succ n ih =>
    apply Ends.get_bind
    cases htake : m.memory.take? with
    | none =>
      rw [Outline.drain_of_next?_eq_none (h.next?_eq_none (hclock ▸
        late_of_popReady? h.regular.memory.sorted (Option.map_eq_none_iff.1 htake)))]
      exact ⟨htracks, asked, h.unwatch⟩
    | some taken =>
      obtain ⟨r, memory⟩ := taken
      obtain ⟨⟨r', queue⟩, hpop, heq⟩ := Option.map_eq_some_iff.1 htake
      obtain ⟨hitems, hready⟩ := GatedQueue.popReady?_eq_some_iff.1 hpop
      have hheld := tracks_take htake htracks
      have htaken := h.take_memory htake
      cases heq
      have hdealt := memoryOne_outlined (r := r) htaken
      refine Ends.modify_bind ?_
      cases hr : r.kind.isWriteBack with
      | true =>
        rw [hr, if_pos rfl, if_pos rfl] at hdealt
        refine Ends.seq ((memoryOne_ends hheld).and hdealt).yields ?_
        rintro - m' ⟨htracks', h'⟩
        exact ih hk htracks' h' (h'.outline ▸ rfl)
      | false =>
        rw [hr, if_neg Bool.false_ne_true, if_neg Bool.false_ne_true] at hdealt
        have hlength : (o.queue .memory).length = ((o.pop .memory).queue .memory).length + 1 := by
          rw [Outline.queue_pop, h.queue_eq, itemsAt, hitems,
            Request.errands_cons_demand v asked _ hr]
          rfl
        obtain ⟨k, rfl⟩ : ∃ k', k = k' + 1 := ⟨k - 1, by omega⟩
        rw [Outline.drain, h.next?_eq_some (s := .memory) hitems hr
          (hclock ▸ Timed.isReady_iff.1 hready)]
        refine Ends.seq ((memoryOne_ends hheld).and hdealt).yields ?_
        rintro - m' ⟨htracks', h'⟩
        refine ih ?_ htracks' h' (h'.outline ▸ rfl)
        rw [Outline.length_queue_read]
        omega

theorem Outlined.advance_memory (h : m.Outlined v none asked o) :
    Outlined v none asked (o.advance .memory)
      { m with memory := { m.memory with cycle := m.memory.cycle + 1 } } := by
  have hle : m.memory.cycle + m.memory.latency ≤ m.memory.cycle + 1 + m.memory.latency := by omega
  refine ⟨⟨h.regular.length, h.regular.caches, h.regular.memory.mono hle, h.regular.above⟩,
    h.unasked, h.asked, ?_, h.length_le⟩
  have hclock : clockAt { m with memory := { m.memory with cycle := m.memory.cycle + 1 } } =
      Function.update m.clockAt .memory (m.memory.cycle + 1) := by
    funext site
    cases site <;> rfl
  rw [← h.outline, Machine.outline, hclock]
  rfl

theorem runMemory_outlined (h : m.Shows v o) :
    Yields (fun _ m' => m'.Shows v (o.runMemory v.plan)) (runMemory m) := by
  obtain ⟨htracks, asked, h⟩ := h
  refine Ends.get_bind (Ends.seq (answerReady_outlined le_rfl htracks (h.watch .memory)) ?_)
  rintro - m' ⟨htracks', asked', h'⟩
  refine Ends.get_bind (Ends.bind (Yields.attempt_add ?_))
  exact ⟨⟨htracks'.sound.congr rfl rfl, htracks'.reach.step .tick⟩, asked', h'.advance_memory⟩

theorem runCycle_outlined (h : m.Shows v o) :
    Yields (fun _ m' => m'.Shows v (o.runMachine v.plan)) (runCycle m) := by
  have hcaches : ∀ (is : List Nat), (∀ i ∈ is, i < v.plan.topology.size) →
      ∀ {o : Outline α} {m : Machine}, m.Shows v o →
      Yields (fun _ m' => m'.Shows v (is.foldl (fun o i => o.runCache v.plan i) o))
        (is.forM runCache m) := by
    intro is
    induction is with
    | nil => exact fun _ _ _ h => h
    | cons i is ih =>
      intro hlt o m h
      exact Ends.seq (runCache_outlined (hlt i List.mem_cons_self) h) fun _ _ h' =>
        ih (fun j hj => hlt j (List.mem_cons_of_mem _ hj)) h'
  have hsize : m.caches.length = v.plan.topology.size := h.tracks.sound.length
  refine Ends.get_bind (Ends.seq (hcaches _ (fun i hi => ?_) h) fun _ _ h' => ?_)
  · rw [← hsize]
    exact List.mem_range.1 hi
  · rw [hsize] at h'
    exact runMemory_outlined h'

end Machine

end CacheHierarchy
