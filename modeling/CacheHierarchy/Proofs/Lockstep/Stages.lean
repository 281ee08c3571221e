import CacheHierarchy.Proofs.Lockstep.Actions

/-!
# Twin cycles

The four stages of a cycle at cache `w.place j` of a split machine and at cache `j` of its twin keep
the machines twins, and so does the turn of memory. The cache that is left over has a turn of its
own in a cycle of the split machine, in which only its clock advances.
-/

namespace CacheHierarchy.Machine

variable {w : Side} {m m' : Machine} {i j : Nat} {r : Request}

section Fills

/-- A request that is no write-back goes up to the cache on its side, which is the only one in
use. -/
theorem sendUp_twins (h : m.Twins w m') (hr : r.kind.side = w) :
    KeepTwins w (sendUp 2 { instruction := 0, data := 1 } r m) (sendUp 1 (.both 0) r m') := by
  have htop : Ports.on { instruction := 0, data := 1 } r.kind.side = w.place 0 := by
    rw [hr]
    cases w <;> rfl
  unfold sendUp
  rw [htop, Ports.on_both]
  have hfill := @handFill_twins w m m' 1 0 r h Nat.one_lt_two (by decide) (by decide) (.inr hr)
  refine Lockstep.seq hfill fun _ m _ m' h => ?_
  refine Lockstep.bind (@cacheAt_twins w m m' 1 _ h Nat.one_lt_two fun c name _ hc => ?_)
  exact record_twins h _ _

theorem isTop_recast {c : Cache} (hc : c.Serves w j) (hj : j < 2) (name : String) :
    (c.recast j name).isTop = c.isTop := by
  change ((Topology.multiLevel.above j) == .core) = (c.above == .core)
  rw [hc.above]
  match j, hj with
  | 0, _ => cases w <;> rfl
  | 1, _ => rfl

theorem absorb_twins (h : m.Twins w m') (hj : j < 2) (r : Request) :
    KeepTwins w (absorb (w.place j) r m) (absorb j r m') := by
  refine Lockstep.bind (cacheAt_twins h hj fun c name _ hc => ?_)
  rw [isTop_recast hc hj]
  split
  · exact Lockstep.throw
  refine Lockstep.bind (Lockstep.attempt (c.tags.agree_absorb name r.addr) ?_)
  rintro tags _ rfl
  simp only [Cache.recast]
  cases c.expected.settle? r.id with
  | none => exact Lockstep.throw
  | some settled =>
    refine Lockstep.seq (setCache_twins h hj (hc.update ..) name) fun _ m _ m' h => ?_
    exact record_twins h _ _

theorem fillBypassed_twins (h : m.Twins w m') (r : Request) (kind : AccessKind) :
    KeepTwins w (fillBypassed w.top r kind m) (fillBypassed 0 r kind m') := by
  refine Lockstep.bind (@cacheAt_twins w m m' 0 _ h Nat.zero_lt_two fun c name _ hc => ?_)
  refine Lockstep.seq (setCache_twins h Nat.zero_lt_two (hc.update ..) name) fun _ m _ m' h => ?_
  refine Lockstep.seq (record_twins h _ _) fun _ m _ m' h => ?_
  cases kind.isWrite with
  | true => exact Lockstep.seq (writeStraightBack_twins h _ _) fun _ m _ m' h => finish_twins h r
  | false => exact finish_twins h r

theorem fillInstalled_twins (h : m.Twins w m') (r : Request) (kind : AccessKind) :
    KeepTwins w (fillInstalled w.top r kind m) (fillInstalled 0 r kind m') := by
  refine Lockstep.bind (@cacheAt_twins w m m' 0 _ h Nat.zero_lt_two fun c name _ hc => ?_)
  refine Lockstep.bind (Lockstep.attempt (c.tags.agree_fill name r.addr kind) ?_)
  rintro ⟨hit, tags⟩ _ rfl
  refine Lockstep.seq (setCache_twins h Nat.zero_lt_two (hc.update ..) name) fun _ m _ m' h => ?_
  refine Lockstep.seq (record_twins h _ _) fun _ m _ m' h => ?_
  have heviction : (tags.named name).lastEviction = tags.lastEviction := rfl
  rw [heviction]
  cases tags.lastEviction with
  | none => exact finish_twins h r
  | some evicted =>
    refine Lockstep.seq (record_twins h _ _) fun _ m _ m' h => ?_
    cases evicted.dirty with
    | false => exact finish_twins h r
    | true =>
      -- the check for a dirty victim is made on the left side only
      have hright : (((c.recast 0 name).side == some .instruction) = true) ↔ False := by
        simp [Cache.recast]
      simp only [hright, if_true, if_false]
      split
      · exact Lockstep.throw_left trivial
      · refine Lockstep.seq (@writeBack_twins w m m' 0 h Nat.zero_lt_two _) fun _ m _ m' h => ?_
        exact finish_twins h r

theorem fillTop_twins (h : m.Twins w m') (r : Request) :
    KeepTwins w (fillTop w.top r m) (fillTop 0 r m') := by
  refine Lockstep.get_bind ?_
  rw [h.outstanding, Outstanding.kindOf?_moved]
  split
  · exact fillBypassed_twins h r _
  · exact fillInstalled_twins h r _

theorem fillBelow_twins (h : m.Twins w m') (hr : r.kind.side = w) :
    KeepTwins w (fillBelow 2 { instruction := 0, data := 1 } r m)
      (fillBelow 1 (.both 0) r m') := by
  refine Lockstep.seq (sendUp_twins h hr) fun _ m _ m' h => ?_
  refine Lockstep.bind (@cacheAt_twins w m m' 1 _ h Nat.one_lt_two fun c name _ hc => ?_)
  refine Lockstep.bind (Lockstep.attempt_same (x := c.tags.contains r.addr) fun resident => ?_)
  cases resident with
  | true => exact record_twins h _ _
  | false =>
    refine Lockstep.bind (Lockstep.attempt
      (c.tags.agree_fill name r.addr r.kind.belowFirstLevel) ?_)
    rintro ⟨hit, tags⟩ _ rfl
    refine Lockstep.seq (setCache_twins h Nat.one_lt_two (hc.update ..) name) fun _ m _ m' h => ?_
    refine Lockstep.seq (record_twins h _ _) fun _ m _ m' h => ?_
    have heviction : (tags.named name).lastEviction = tags.lastEviction := rfl
    rw [heviction]
    cases tags.lastEviction with
    | none => exact h
    | some evicted =>
      have hrepair : ∀ m m', m.Twins w m' → KeepTwins w
          ((do divertWriteBacks 2 evicted.addr; withdrawAbove 2 evicted.addr : Action Unit) m)
          ((do divertWriteBacks 1 evicted.addr; withdrawAbove 1 evicted.addr : Action Unit) m') :=
        fun m m' h => Lockstep.seq (divertWriteBacks_twins h _) fun _ m _ m' h =>
          withdrawAbove_twins h _
      refine Lockstep.seq (record_twins h _ _) fun _ m _ m' h => ?_
      cases evicted.dirty with
      | false => exact hrepair m m' h
      | true =>
        exact Lockstep.seq (@writeBack_twins w m m' 1 h Nat.one_lt_two _) fun _ m _ m' h =>
          hrepair m m' h

theorem fillOne_twins (h : m.Twins w m') (hj : j < 2) (hr : r.On w) :
    KeepTwins w (fillOne (w.place j) r m) (fillOne j r m') := by
  unfold fillOne
  rcases hr with hkind | hside
  · rw [hkind]
    exact absorb_twins h hj r
  split
  · exact absorb_twins h hj r
  refine Lockstep.bind (cacheAt_twins h hj fun c name _ hc => ?_)
  rw [hc.above]
  match j, hj with
  | 0, _ =>
    rw [Side.above_place_zero]
    exact fillTop_twins h r
  | 1, _ => exact fillBelow_twins h hside

end Fills

section Queues

def Takes (w : Side) (j : Nat) (take? : Cache → Option (Request × Cache)) : Prop :=
  ∀ c name, c.Serves w j →
    take? (c.recast j name) = (take? c).map (fun (r, d) => (r, d.recast j name)) ∧
      ∀ r d, take? c = some (r, d) → r.On w ∧ d.Serves w j

theorem takes_lookups : Takes w j Cache.takeLookup? := by
  intro c name hc
  refine ⟨by simp [Cache.takeLookup?, Cache.recast, Function.comp_def], fun r d htake => ?_⟩
  obtain ⟨⟨r', lookups⟩, hpop, htaken⟩ := Option.map_eq_some_iff.1 htake
  cases htaken
  have hleft := hc.lookups.popReady? hpop
  exact ⟨hleft.1, { hc with lookups := hleft.2 }⟩

theorem takes_fills : Takes w j Cache.takeFill? := by
  intro c name hc
  refine ⟨by simp [Cache.takeFill?, Cache.recast, Function.comp_def], fun r d htake => ?_⟩
  obtain ⟨⟨r', fills⟩, hpop, htaken⟩ := Option.map_eq_some_iff.1 htake
  cases htaken
  have hleft := hc.fills.popReady? hpop
  exact ⟨hleft.1, { hc with fills := hleft.2 }⟩

theorem takes_sends : Takes w j Cache.takeSend? := by
  intro c name hc
  refine ⟨by simp [Cache.takeSend?, Cache.recast, Function.comp_def], fun r d htake => ?_⟩
  obtain ⟨⟨r', sends⟩, hpop, htaken⟩ := Option.map_eq_some_iff.1 htake
  cases htaken
  have hleft := hc.sends.popReady? hpop
  exact ⟨hleft.1, { hc with sends := hleft.2 }⟩

theorem drain_twins {take? : Cache → Option (Request × Cache)} {one one' : Request → Action Unit}
    (htakes : Takes w j take?) (hj : j < 2)
    (hone : ∀ m m' r, m.Twins w m' → r.On w → KeepTwins w (one r m) (one' r m')) (n : Nat)
    (h : m.Twins w m') :
    KeepTwins w (drain (w.place j) take? one n m) (drain j take? one' n m') := by
  induction n generalizing m m' with
  | zero => exact h
  | succ n ih =>
    refine Lockstep.bind (cacheAt_twins h hj fun c name _ hc => ?_)
    obtain ⟨hsame, htaken⟩ := htakes c name hc
    rw [hsame]
    cases htake : take? c with
    | none => exact h
    | some taken =>
      obtain ⟨hr, hd⟩ := htaken taken.1 taken.2 htake
      refine Lockstep.seq (setCache_twins h hj hd name) fun _ m _ m' h => ?_
      exact Lockstep.seq (hone m m' taken.1 h hr) fun _ m _ m' h => ih h

theorem releaseStage_twins (h : m.Twins w m') (hj : j < 2) :
    KeepTwins w (releaseStage (w.place j) m) (releaseStage j m') := by
  refine Lockstep.bind (cacheAt_twins h hj fun c name _ hc => ?_)
  have hserves : Cache.Serves w j
      { c with sends := c.sends.append c.writeBacks.items, writeBacks := {} } :=
    { hc with sends := hc.sends.append hc.writeBacks, writeBacks := .empty }
  exact setCache_twins h hj hserves name

theorem fillStage_twins (h : m.Twins w m') (hj : j < 2) :
    KeepTwins w (fillStage (w.place j) m) (fillStage j m') := by
  refine Lockstep.bind (cacheAt_twins h hj fun c _ _ _ => ?_)
  refine drain_twins takes_fills hj ?_ _ h
  exact fun m m' r h hr => fillOne_twins h hj hr

theorem sendOne_twins (h : m.Twins w m') (hj : j < 2) (hr : r.On w) :
    KeepTwins w (sendOne (w.place j) r m) (sendOne j r m') := by
  refine Lockstep.bind (cacheAt_twins h hj fun c name _ hc => ?_)
  split
  · refine Lockstep.seq (record_twins h _ _) fun _ m _ m' h => ?_
    rw [hc.below]
    match j, hj with
    | 0, _ =>
      rw [Side.below_place_zero]
      change KeepTwins w ((if r.kind.isWriteBack then _ else _ : Action Unit) m)
        ((if r.kind.isWriteBack then _ else _ : Action Unit) m')
      split
      · exact handFill_twins h (by decide) (by decide) (by decide) hr
      · exact handDown_twins h (by decide) (by decide) (by decide) hr
    | 1, _ => exact sendToMemory_twins h hr
  · exact Lockstep.throw

theorem sendStage_twins (h : m.Twins w m') (hj : j < 2) :
    KeepTwins w (sendStage (w.place j) m) (sendStage j m') := by
  refine Lockstep.bind (cacheAt_twins h hj fun c _ _ _ => ?_)
  refine drain_twins takes_sends hj ?_ _ h
  exact fun m m' r h hr => sendOne_twins h hj hr

end Queues

section Lookups

theorem lookUpTags_twins (h : m.Twins w m') (hr : r.On w) :
    KeepTwins w (lookUpTags w.top r m) (lookUpTags 0 r m') := by
  refine Lockstep.bind (@cacheAt_twins w m m' 0 _ h Nat.zero_lt_two fun c name _ hc => ?_)
  refine Lockstep.bind (Lockstep.attempt (c.tags.agree_lookup name r.addr r.kind) ?_)
  rintro ⟨hit, tags⟩ _ rfl
  refine Lockstep.seq (record_twins h _ _) fun _ m _ m' h => ?_
  cases hit with
  | true =>
    refine Lockstep.seq (setCache_twins h Nat.zero_lt_two (hc.update ..) name) ?_
    exact fun _ m _ m' h => finish_twins h r
  | false =>
    have hserves : Cache.Serves w 0
        { c with tags, sends := c.sends.push { r with isMiss := true } } :=
      { hc.update tags c.cycle c.expected with sends := hc.sends.push hr }
    refine Lockstep.seq (setCache_twins h Nat.zero_lt_two hserves name) fun _ m _ m' h => ?_
    refine { h with outstanding := ?_ }
    have hmoved := m'.outstanding.markMiss_moved w.top r.id 0 (c.tags.geometry.lineOf r.addr)
    rw [Nat.zero_add, ← h.outstanding] at hmoved
    exact hmoved

theorem lookUpTop_twins (h : m.Twins w m') (hr : r.On w) :
    KeepTwins w (lookUpTop w.top r m) (lookUpTop 0 r m') := by
  refine Lockstep.bind (@cacheAt_twins w m m' 0 _ h Nat.zero_lt_two fun c name _ hc => ?_)
  refine Lockstep.bind (Lockstep.attempt_same (x := c.tags.contains r.addr) fun resident => ?_)
  cases resident with
  | true => exact lookUpTags_twins h hr
  | false =>
    have hmoved := m'.outstanding.merge?_moved w.top 0 (c.tags.geometry.lineOf r.addr) r.kind
    rw [Nat.zero_add, ← h.outstanding] at hmoved
    refine Lockstep.get_bind ?_
    rw [hmoved]
    simp only [Cache.recast, TagArray.named]
    cases m'.outstanding.merge? 0 (c.tags.geometry.lineOf r.addr) r.kind with
    | none => exact lookUpTags_twins h hr
    | some merged =>
      have hmerged : Twins w { m with outstanding := merged.2.moved w.top }
          { m' with outstanding := merged.2 } := { h with outstanding := rfl }
      refine Lockstep.modify_bind ?_
      refine Lockstep.seq (setCache_twins hmerged Nat.zero_lt_two (hc.update ..) name) ?_
      refine fun _ m _ m' h => Lockstep.seq (record_twins h _ _) ?_
      exact fun _ m _ m' h => finish_twins h r

theorem lookUpBelow_twins (h : m.Twins w m') (hr : r.On w) :
    KeepTwins w (lookUpBelow 2 { instruction := 0, data := 1 } r m)
      (lookUpBelow 1 (.both 0) r m') := by
  refine Lockstep.bind (@cacheAt_twins w m m' 1 _ h Nat.one_lt_two fun c name _ hc => ?_)
  rcases hr with hkind | hside
  · rw [AccessKind.isWriteBack_iff.1 hkind]
    trivial
  refine Lockstep.bind (Lockstep.attempt
    (c.tags.agree_lookup name r.addr r.kind.belowFirstLevel) ?_)
  rintro ⟨hit, tags⟩ _ rfl
  refine Lockstep.seq (record_twins h _ _) fun _ m _ m' h => ?_
  cases hit with
  | true =>
    refine Lockstep.seq (setCache_twins h Nat.one_lt_two (hc.update ..) name) ?_
    exact fun _ m _ m' h => sendUp_twins h hside
  | false =>
    have hserves : Cache.Serves w 1 { c with tags, sends := c.sends.push r } :=
      { hc.update tags c.cycle c.expected with sends := hc.sends.push (.inr hside) }
    exact setCache_twins h Nat.one_lt_two hserves name

theorem lookUpOne_twins (h : m.Twins w m') (hj : j < 2) (hr : r.On w) :
    KeepTwins w (lookUpOne (w.place j) r m) (lookUpOne j r m') := by
  refine Lockstep.bind (cacheAt_twins h hj fun c name _ hc => ?_)
  rw [hc.above]
  match j, hj with
  | 0, _ =>
    rw [Side.above_place_zero]
    exact lookUpTop_twins h hr
  | 1, _ => exact lookUpBelow_twins h hr

theorem lookUpStage_twins (h : m.Twins w m') (hj : j < 2) :
    KeepTwins w (lookUpStage (w.place j) m) (lookUpStage j m') := by
  refine Lockstep.bind (cacheAt_twins h hj fun c _ _ _ => ?_)
  refine drain_twins takes_lookups hj ?_ _ h
  exact fun m m' r h hr => lookUpOne_twins h hj hr

end Lookups

section Cycles

theorem advanceCache_twins (h : m.Twins w m') (hj : j < 2) :
    KeepTwins w (advanceCache (w.place j) m) (advanceCache j m') := by
  refine Lockstep.bind (cacheAt_twins h hj fun c name _ hc => ?_)
  refine Lockstep.bind (Lockstep.attempt_same (x := Word.add c.cycle 1) fun cycle => ?_)
  exact setCache_twins h hj (hc.update ..) name

theorem runCache_twins (h : m.Twins w m') (hj : j < 2) :
    KeepTwins w (runCache (w.place j) m) (runCache j m') := by
  refine Lockstep.seq (releaseStage_twins h hj) fun _ m _ m' h => ?_
  refine Lockstep.seq (fillStage_twins h hj) fun _ m _ m' h => ?_
  refine Lockstep.seq (sendStage_twins h hj) fun _ m _ m' h => ?_
  refine Lockstep.seq (lookUpStage_twins h hj) fun _ m _ m' h => ?_
  exact advanceCache_twins h hj

theorem drain_idle {take? : Cache → Option (Request × Cache)} {one : Request → Action Unit}
    {queue : Cache → GatedQueue Request} (hqueue : ∀ d : Cache, d.Idle → queue d = {})
    (h : m.Twins w m') :
    Ends (fun _ m => m.Twins w m') (fun fault _ => fault.IsLone)
      ((do drain w.idle take? one (queue (← cacheAt w.idle)).length : Action Unit) m) := by
  obtain ⟨d, hd, hidle⟩ := h.idle
  refine Ends.bind (cacheAt_ends hd ?_)
  rw [hqueue d hidle]
  exact h

theorem runCache_idle (h : m.Twins w m') :
    Ends (fun _ m => m.Twins w m') (fun fault _ => fault.IsLone) (runCache w.idle m) := by
  refine Ends.seq (P := fun _ m => m.Twins w m') ?_ fun _ m h => ?_
  · obtain ⟨d, hd, hidle⟩ := h.idle
    refine Ends.bind (cacheAt_ends hd (setCache_ends (h.put_idle ?_)))
    have hsends : d.sends.append d.writeBacks.items = {} := by
      rw [hidle.sends, hidle.writeBacks]
      rfl
    exact { hidle with sends := hsends, writeBacks := rfl }
  refine Ends.seq (drain_idle (fun d hd => hd.fills) h) fun _ m h => ?_
  refine Ends.seq (drain_idle (fun d hd => hd.sends) h) fun _ m h => ?_
  refine Ends.seq (drain_idle (fun d hd => hd.lookups) h) fun _ m h => ?_
  obtain ⟨d, hd, hidle⟩ := h.idle
  refine Ends.bind (cacheAt_ends hd (Ends.bind (Ends.attempt_add ?_ fun _ => trivial)))
  exact setCache_ends (h.put_idle { hidle with })

theorem memoryAbsorb_twins (h : m.Twins w m') (r : Request) :
    KeepTwins w (memoryAbsorb r m) (memoryAbsorb r m') := by
  refine Lockstep.get_bind ?_
  rw [h.memory]
  cases m.memory.expected.settle? r.id with
  | none => exact Lockstep.throw
  | some settled =>
    refine Lockstep.bind (Lockstep.attempt_same fun writeBacks => Lockstep.set_bind ?_)
    exact record_twins (h.remember { m.memory with expected := settled.2, writeBacks } h.above
      h.queue) _ _

theorem memoryRead_twins (h : m.Twins w m') (hr : r.On w) :
    KeepTwins w (memoryRead r m) (memoryRead r m') := by
  refine Lockstep.get_bind ?_
  rw [h.memory, h.above]
  refine Lockstep.bind (Lockstep.attempt_same fun reads => Lockstep.set_bind ?_)
  have hcounted := h.remember { m.memory with reads } h.above h.queue
  refine Lockstep.bind (@cacheAt_twins w _ _ 1 _ hcounted Nat.one_lt_two fun c name _ hc => ?_)
  refine Lockstep.bind (Lockstep.attempt (P := fun d d' => d.Serves w 1 ∧ d' = d.recast 1 name)
    (Agree.map_same (x := c.arrival) fun _ => ⟨{ hc with fills := hc.fills.push hr }, rfl⟩) ?_)
  rintro d _ ⟨hd, rfl⟩
  exact setCache_twins hcounted Nat.one_lt_two hd name

theorem memoryOne_twins (h : m.Twins w m') (hr : r.On w) :
    KeepTwins w (memoryOne r m) (memoryOne r m') := by
  unfold memoryOne
  split
  · exact memoryAbsorb_twins h r
  · exact memoryRead_twins h hr

theorem answerReady_twins (n : Nat) (h : m.Twins w m') :
    KeepTwins w (answerReady n m) (answerReady n m') := by
  induction n generalizing m m' with
  | zero => exact h
  | succ n ih =>
    have hsame : m'.memory.take? =
        m.memory.take?.map fun (r, memory) => (r, { memory with above := some 1 }) := by
      rw [h.memory, Memory.take?, Memory.take?, Option.map_map]
      rfl
    refine Lockstep.get_bind ?_
    rw [hsame]
    cases htake : m.memory.take? with
    | none => exact h
    | some taken =>
      obtain ⟨⟨r, queue⟩, hpop, rfl⟩ := Option.map_eq_some_iff.1 htake
      have hleft := h.queue.popReady? hpop
      refine Lockstep.modify_bind (Lockstep.seq (memoryOne_twins ?_ hleft.1) ?_)
      · exact h.remember _ h.above hleft.2
      · exact fun _ m _ m' h => ih h

theorem runMemory_twins (h : m.Twins w m') : KeepTwins w (runMemory m) (runMemory m') := by
  refine Lockstep.get_bind ?_
  rw [h.memory]
  refine Lockstep.seq (answerReady_twins _ h) fun _ m _ m' h => Lockstep.get_bind ?_
  rw [h.memory]
  refine Lockstep.bind (Lockstep.attempt_same fun cycle => ?_)
  exact h.remember _ h.above h.queue

theorem runCycle_twins (h : m.Twins w m') : KeepTwins w (runCycle m) (runCycle m') := by
  refine Lockstep.get_bind (Lockstep.seq ?_ fun _ m _ m' h => runMemory_twins h)
  rw [h.length, h.length']
  have hcache : ∀ j < 2, ∀ m m', m.Twins w m' →
      KeepTwins w (runCache (w.place j) m) (runCache j m') :=
    fun j hj m m' h => runCache_twins h hj
  have hbase : ∀ m m', m.Twins w m' → KeepTwins w ([2].forM runCache m) ([1].forM runCache m') :=
    fun m m' h => Lockstep.seq (hcache 1 Nat.one_lt_two m m' h) fun _ m _ m' h => h
  cases w with
  | data =>
    refine Lockstep.left ((runCache_idle h).mono (fun _ m h => ?_) fun _ _ => id)
    exact Lockstep.seq (hcache 0 Nat.zero_lt_two m m' h) fun _ m _ m' h => hbase m m' h
  | instruction =>
    refine Lockstep.seq (hcache 0 Nat.zero_lt_two m m' h) fun _ m _ m' h => ?_
    refine Lockstep.left ((runCache_idle h).mono (fun _ m h => ?_) fun _ _ => id)
    exact hbase m m' h

end Cycles

end CacheHierarchy.Machine
