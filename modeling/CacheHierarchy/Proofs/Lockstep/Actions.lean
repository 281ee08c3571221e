import CacheHierarchy.Machine.Stages
import CacheHierarchy.Proofs.Lockstep.Twins

/-!
# Twin actions

An action at cache `w.place j` of a split machine and the same action at cache `j` of its twin keep
the machines twins. The cache that is left over comes into play where a lower level looks at all
caches above it, and has nothing to add there.
-/

namespace CacheHierarchy

/-- A fault that a split machine need not share with its twin: time runs out in the cache that is
left over as well, and instruction caches check that none of their lines is dirty. -/
def Fault.IsLone : Fault → Prop
  | sumOverflow => True
  | dirtyInstructionVictim _ _ => True
  | dirtyInstructionCopy _ _ => True
  | _ => False

namespace Machine

abbrev KeepTwins (w : Side) (x y : EStateM.Result Fault Machine Unit) : Prop :=
  Lockstep Fault.IsLone (fun _ m _ m' => m.Twins w m') x y

variable {w : Side} {m m' : Machine} {i j : Nat} {r : Request}

section Operations

variable {α β : Type}

theorem cacheAt_twins {R : Cache → Machine → Cache → Machine → Prop} (h : m.Twins w m')
    (hj : j < 2)
    (hR : ∀ c name, m.caches[w.place j]? = some c → c.Serves w j →
      R c m (c.recast j name) m') :
    Lockstep Fault.IsLone R (cacheAt (w.place j) m) (cacheAt j m') := by
  obtain ⟨c, name, hc, hc', hserves⟩ := h.cache j hj
  refine Lockstep.get_bind ?_
  rw [hc, hc']
  exact hR c name hc hserves

theorem neighbour_twins {R : Cache → Machine → Cache → Machine → Prop} (h : m.Twins w m')
    (hi : i < 2) (hj : j < 2) (hne : j ≠ i)
    (hR : ∀ c name, c.Serves w j → R c m (c.recast j name) m') :
    Lockstep Fault.IsLone R (neighbour (w.place i) (w.place j) m) (neighbour i j m') := by
  obtain ⟨c, name, hc, hc', hserves⟩ := h.cache j hj
  have hleft : m.neighbour? (w.place i) (w.place j) = .ok c := by
    rw [neighbour?, if_neg fun heq => hne ((Side.place_inj hj hi).1 heq), hc]
  have hright : m'.neighbour? i j = .ok (c.recast j name) := by
    rw [neighbour?, if_neg hne, hc']
  refine Lockstep.get_bind ?_
  rw [hleft, hright]
  exact hR c name hserves

theorem setCache_twins (h : m.Twins w m') (hj : j < 2) {c : Cache} (hc : c.Serves w j)
    (name : String) : KeepTwins w (setCache (w.place j) c m) (setCache j (c.recast j name) m') :=
  h.put hj hc name

theorem record_twins (h : m.Twins w m') (event event' : Event) :
    KeepTwins w (record event m) (record event' m') :=
  h.noted event event'

theorem freshId_twins (h : m.Twins w m') :
    Lockstep Fault.IsLone (fun id m id' m' => m.Twins w m' ∧ id' = id) (freshId m)
      (freshId m') := by
  refine Lockstep.get_bind (Lockstep.bind ?_)
  rw [h.nextId]
  exact Lockstep.attempt_same fun nextId => ⟨{ h with nextId := rfl }, rfl⟩

theorem finish_twins (h : m.Twins w m') (r : Request) : KeepTwins w (finish r m) (finish r m') :=
  { h with finished := congrArg (· ++ [r.finish]) h.finished }

theorem sendToMemory_twins (h : m.Twins w m') (hr : r.On w) :
    KeepTwins w (sendToMemory r m) (sendToMemory r m') := by
  refine Lockstep.get_bind (Lockstep.bind ?_)
  rw [h.memory]
  refine Lockstep.attempt_same fun readyAt => Lockstep.set_bind (record_twins ?_ _ _)
  exact h.remember _ h.above (h.queue.push hr)

theorem announceToMemory_twins (h : m.Twins w m') (note : WriteBackNote) :
    KeepTwins w (announceToMemory note m) (announceToMemory note m') := by
  change Machine.Twins w _ { m' with memory := m'.memory.announce note }
  rw [h.memory]
  exact h.remember _ h.above h.queue

theorem accept_twins {accept : Cache → Except Fault Cache} (h : m.Twins w m') (hi : i < 2)
    (hj : j < 2) (hne : j ≠ i)
    (haccept : ∀ (c : Cache) (name : String), c.Serves w j → Agree (fun d d' =>
      d.Serves w j ∧ d' = d.recast j name) (accept c) (accept (c.recast j name))) :
    KeepTwins w
      ((do setCache (w.place j)
            (← attempt (accept (← neighbour (w.place i) (w.place j))))) m)
      ((do setCache j (← attempt (accept (← neighbour i j)))) m') := by
  refine Lockstep.bind (neighbour_twins h hi hj hne fun c name hc => ?_)
  refine Lockstep.bind (Lockstep.attempt (haccept c name hc) ?_)
  rintro d _ ⟨hd, rfl⟩
  exact setCache_twins h hj hd name

theorem handDown_twins (h : m.Twins w m') (hi : i < 2) (hj : j < 2) (hne : j ≠ i)
    (hr : r.On w) :
    KeepTwins w (handDown (w.place i) (w.place j) r m) (handDown i j r m') :=
  accept_twins h hi hj hne fun c _ hc => Agree.map_same (x := c.arrival) fun _ =>
    ⟨{ hc with lookups := hc.lookups.push hr }, rfl⟩

theorem handFill_twins (h : m.Twins w m') (hi : i < 2) (hj : j < 2) (hne : j ≠ i)
    (hr : r.On w) :
    KeepTwins w (handFill (w.place i) (w.place j) r m) (handFill i j r m') :=
  accept_twins h hi hj hne fun c _ hc => Agree.map_same (x := c.arrival) fun _ =>
    ⟨{ hc with fills := hc.fills.push hr }, rfl⟩

theorem onWriteBack (id addr now : Nat) : (Request.ofWriteBack id addr now).On w := .inl rfl

theorem writeStraightBack_twins (h : m.Twins w m') (addr cycle : Nat) :
    KeepTwins w (writeStraightBack addr cycle m) (writeStraightBack addr cycle m') := by
  refine Lockstep.seq (freshId_twins h) ?_
  rintro _ m id m' ⟨h, rfl⟩
  refine Lockstep.seq (announceToMemory_twins h _) fun _ m _ m' h => ?_
  exact sendToMemory_twins h (onWriteBack ..)

end Operations

section Evictions

theorem announceBelow_twins (h : m.Twins w m') (hj : j < 2) (note : WriteBackNote) :
    KeepTwins w (announceBelow (w.place j) (Topology.splitL1.below (w.place j)) note m)
      (announceBelow j (Topology.multiLevel.below j) note m') := by
  match j, hj with
  | 0, _ =>
    rw [Side.below_place_zero]
    refine Lockstep.bind (neighbour_twins h (by decide) Nat.one_lt_two Nat.one_ne_zero ?_)
    exact fun d name hd => setCache_twins h Nat.one_lt_two (hd.update ..) name
  | 1, _ => exact announceToMemory_twins h note

theorem writeBack_twins (h : m.Twins w m') (hj : j < 2) (addr : Nat) :
    KeepTwins w (writeBack (w.place j) addr m) (writeBack j addr m') := by
  refine Lockstep.seq (freshId_twins h) ?_
  rintro _ m id m' ⟨h, rfl⟩
  refine Lockstep.bind (cacheAt_twins h hj fun c name _ hc => ?_)
  have hannounce := announceBelow_twins h hj (Request.ofWriteBack id addr c.cycle).note
  rw [← hc.below] at hannounce
  refine Lockstep.seq hannounce fun _ m _ m' h => ?_
  refine Lockstep.seq (record_twins h _ _) fun _ m _ m' h => ?_
  have hserves : Cache.Serves w j
      { c with writeBacks := c.writeBacks.push (Request.ofWriteBack id addr c.cycle) } :=
    { hc with writeBacks := hc.writeBacks.push (onWriteBack ..) }
  exact setCache_twins h hj hserves name

abbrev KeepRecalled (w : Side) (x y : EStateM.Result Fault Machine (List Request)) : Prop :=
  Lockstep Fault.IsLone
    (fun l m l' m' => m.Twins w m' ∧ l' = l ∧ ∀ r ∈ l, r.On w) x y

theorem recallFrom_twins {lineSize line : Nat} {side side' : Side} {rest rest' : List (Side × Nat)}
    (h : m.Twins w m')
    (hrest : ∀ m m', m.Twins w m' →
      KeepRecalled w (recallFrom 2 lineSize line rest m) (recallFrom 1 lineSize line rest' m')) :
    KeepRecalled w (recallFrom 2 lineSize line ((side, w.top) :: rest) m)
      (recallFrom 1 lineSize line ((side', 0) :: rest') m') := by
  refine Lockstep.bind (@neighbour_twins w m m' 1 0 _ h Nat.one_lt_two (by decide) (by decide) ?_)
  intro c name hc
  have hmade := hc.writeBacks.takeWhere (Cache.isWriteBackOf lineSize line)
  have hqueued := hc.sends.takeWhere (Cache.isWriteBackOf lineSize line)
  have hserves : (c.recallWriteBacks lineSize line).2.Serves w 0 :=
    { hc with writeBacks := hmade.2, sends := hqueued.2 }
  refine Lockstep.seq (setCache_twins h (by decide) hserves name) fun _ m _ m' h => ?_
  refine Lockstep.seq (hrest m m' h) ?_
  rintro l m _ m' ⟨h, rfl, hl⟩
  refine ⟨h, rfl, fun r hr => ?_⟩
  rcases List.mem_append.1 hr with hr | hr
  · exact (List.mem_append.1 hr).elim (hmade.1 r) (hqueued.1 r)
  · exact hl r hr

theorem recallFrom_idle {lineSize line : Nat} {side : Side} {rest rest' : List (Side × Nat)}
    (h : m.Twins w m')
    (hrest : ∀ m m', m.Twins w m' →
      KeepRecalled w (recallFrom 2 lineSize line rest m) (recallFrom 1 lineSize line rest' m')) :
    KeepRecalled w (recallFrom 2 lineSize line ((side, w.idle) :: rest) m)
      (recallFrom 1 lineSize line rest' m') := by
  obtain ⟨d, hd, hidle⟩ := h.idle
  have hrecalled : d.recallWriteBacks lineSize line = ([], d) := by
    obtain ⟨tags, latency, above, below, side, cycle, lookups, fills, sends, writeBacks,
      expected⟩ := d
    obtain ⟨-, -, -, -, rfl, rfl, -⟩ := hidle
    rfl
  refine Lockstep.left (neighbour_ends w.idle_ne_base hd ?_)
  rw [hrecalled]
  refine Lockstep.left (setCache_ends ?_)
  simp only [List.nil_append, bind_pure]
  exact hrest _ m' (h.put_idle hidle)

theorem recallAll_twins (h : m.Twins w m') (lineSize line : Nat) :
    KeepRecalled w (recallFrom 2 lineSize line (Topology.splitL1.above 2).neighbours m)
      (recallFrom 1 lineSize line (Topology.multiLevel.above 1).neighbours m') := by
  have hnone : ∀ m m', m.Twins w m' →
      KeepRecalled w (recallFrom 2 lineSize line [] m) (recallFrom 1 lineSize line [] m') :=
    fun m m' h => ⟨h, rfl, fun r hr => absurd hr List.not_mem_nil⟩
  cases w with
  | data => exact recallFrom_twins h fun m m' h => recallFrom_idle h hnone
  | instruction => exact recallFrom_idle h fun m m' h => recallFrom_twins h hnone

theorem divertWriteBack_twins (h : m.Twins w m') (hr : r.On w) :
    KeepTwins w (divertWriteBack 2 r m) (divertWriteBack 1 r m') := by
  refine Lockstep.bind (@cacheAt_twins w m m' 1 _ h Nat.one_lt_two fun c name _ hc => ?_)
  simp only [Cache.recast]
  cases c.expected.settle? r.id with
  | none => exact Lockstep.throw
  | some settled =>
    refine Lockstep.seq (setCache_twins h Nat.one_lt_two (hc.update ..) name) fun _ m _ m' h => ?_
    refine Lockstep.seq (record_twins h _ _) fun _ m _ m' h => ?_
    refine Lockstep.seq (announceToMemory_twins h _) fun _ m _ m' h => ?_
    exact sendToMemory_twins h hr

theorem divertWriteBacks_twins (h : m.Twins w m') (addr : Nat) :
    KeepTwins w (divertWriteBacks 2 addr m) (divertWriteBacks 1 addr m') := by
  refine Lockstep.bind (@cacheAt_twins w m m' 1 _ h Nat.one_lt_two fun c name _ hc => ?_)
  let line := c.tags.geometry.lineOf addr
  have harrived := hc.fills.takeWhere (Cache.isWriteBackOf c.tags.geometry.lineSize line)
  have hserves : Cache.Serves w 1 { c with
      fills := (c.fills.takeWhere (Cache.isWriteBackOf c.tags.geometry.lineSize line)).2 } :=
    { hc with fills := harrived.2 }
  refine Lockstep.seq (setCache_twins h Nat.one_lt_two hserves name) fun _ m _ m' h => ?_
  have habove : (c.recast 1 name).above.neighbours =
    (Topology.multiLevel.above 1).neighbours := rfl
  rw [hc.above, habove]
  refine Lockstep.seq (recallAll_twins h _ _) ?_
  rintro _ m recalled m' ⟨h, rfl, hrecalled⟩
  refine Lockstep.forM (fun r hr m m' h => divertWriteBack_twins h ?_) h
  exact (List.mem_append.1 hr).elim (harrived.1 r) (hrecalled r)

theorem backInvalidate_twins (h : m.Twins w m') (addr : Nat) (side : Side) (line : Line) :
    KeepTwins w (backInvalidate w.top addr side line m) (backInvalidate 0 addr .data line m') := by
  refine Lockstep.bind (@cacheAt_twins w m m' 0 _ h Nat.zero_lt_two fun c name _ hc => ?_)
  have hright : (line.dirty && Side.data == .instruction) = false := Bool.and_false _
  rw [if_neg (ne_true_of_eq_false hright)]
  split
  · exact Lockstep.throw_left trivial
  refine Lockstep.bind (Lockstep.attempt (c.tags.agree_backInvalidate name addr) ?_)
  rintro ⟨dirty, tags⟩ _ rfl
  refine Lockstep.seq (setCache_twins h Nat.zero_lt_two (hc.update ..) name) fun _ m _ m' h => ?_
  refine Lockstep.seq (record_twins h _ _) fun _ m _ m' h => ?_
  cases dirty with
  | false => exact h
  | true => exact writeStraightBack_twins h _ _

theorem withdrawFrom_twins (h : m.Twins w m') (addr : Nat) (side : Side) :
    KeepTwins w (withdrawFrom 2 addr (side, w.top) m) (withdrawFrom 1 addr (.data, 0) m') := by
  refine Lockstep.bind (@neighbour_twins w m m' 1 0 _ h Nat.one_lt_two (by decide) (by decide) ?_)
  intro c name hc
  refine Lockstep.bind (Lockstep.attempt_same (x := c.tags.line? addr) fun line? => ?_)
  cases line? with
  | some line => exact backInvalidate_twins h addr side line
  | none =>
    have hawaits : (c.recast 0 name).awaits addr = c.awaits addr := rfl
    dsimp only
    rw [hawaits]
    split
    · have hfills : (c.bypassFills addr).fills.On w := hc.fills.map fun r => by split <;> rfl
      have hserves : (c.bypassFills addr).Serves w 0 := { hc with fills := hfills }
      refine Lockstep.seq (setCache_twins h Nat.zero_lt_two hserves name) fun _ m _ m' h => ?_
      refine Lockstep.bind (@cacheAt_twins w m m' 1 _ h Nat.one_lt_two fun c name _ hc => ?_)
      exact record_twins h _ _
    · exact h

/-- The cache that is left over has nothing to withdraw. -/
theorem withdrawFrom_idle {f : PUnit → Action Unit} (h : m.Twins w m') (addr : Nat) (side : Side)
    {y : EStateM.Result Fault Machine Unit} (hf : KeepTwins w (f ⟨⟩ m) y) :
    KeepTwins w ((withdrawFrom 2 addr (side, w.idle) >>= f) m) y := by
  obtain ⟨d, hd, hidle⟩ := h.idle
  refine Lockstep.left (Ends.bind (neighbour_ends w.idle_ne_base hd ?_))
  refine Ends.bind (Ends.attempt_ok (hidle.line?_eq addr) ?_)
  dsimp only
  rw [hidle.awaits_eq]
  exact hf

theorem withdrawAbove_twins (h : m.Twins w m') (addr : Nat) :
    KeepTwins w (withdrawAbove 2 addr m) (withdrawAbove 1 addr m') := by
  refine Lockstep.bind (@cacheAt_twins w m m' 1 _ h Nat.one_lt_two fun c name _ hc => ?_)
  have hone := fun side m m' h => @withdrawFrom_twins w m m' h addr side
  rw [hc.above]
  cases w with
  | data =>
    refine Lockstep.seq (hone .data m m' h) fun _ m _ m' h => ?_
    exact withdrawFrom_idle h addr .instruction h
  | instruction =>
    refine withdrawFrom_idle h addr .data ?_
    exact Lockstep.seq (hone .instruction m m' h) fun _ m _ m' h => h

end Evictions

end Machine

end CacheHierarchy
