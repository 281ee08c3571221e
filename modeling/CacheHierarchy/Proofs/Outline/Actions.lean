import CacheHierarchy.Proofs.Execution.Yields
import CacheHierarchy.Proofs.Outline.Updates

/-!
# What actions do to an outline

Making a write-back, passing one on and taking one in leave the outline as it is. Handing a request
up and withdrawing a line from the levels above are the functions of outlines with these names.
-/

namespace CacheHierarchy

namespace Topology

theorem entry?_of_above {t : Topology} {b : Nat} {ports : Ports} (h : t.above b = .caches ports) :
    t.entry? = some ports := by
  unfold above at h
  split at h
  · cases hentry : t.entry? with
    | none =>
      rw [hentry] at h
      cases h
    | some ports' =>
      rw [hentry] at h
      cases h
      rfl
  · cases h

theorem top_of_entry? {t : Topology} {ports : Ports} (h : t.entry? = some ports) (side : Side) :
    t.top side = ports.on side := by
  rw [top, h]
  rfl

theorem ports_of_entry? {t : Topology} {ports : Ports} (h : t.entry? = some ports) :
    t.ports = ports.distinct := by
  rw [Topology.ports, h]
  rfl

end Topology

variable {α : Type}

namespace Machine

variable {v : Vantage α} {w : Option (Spot × Nat)} {asked : Nat → List Bool} {o : Outline α}
  {m : Machine} {i j b n : Nat} {r : Request}

theorem sendUp_outlined (h : m.Outlined v w asked o) {ports : Ports}
    (hports : v.plan.topology.above b = .caches ports) (hr : r.kind.isWriteBack = false)
    (hw : ∀ j n, j ≠ b → w ≠ some (.fills j, n)) :
    Yields (fun _ m' => m'.Outlined v w asked (o.sendUp (r.errand v asked)))
      (sendUp b ports r m) := by
  have htop : v.plan.topology.top r.kind.side = ports.on r.kind.side :=
    Topology.top_of_entry? (Topology.entry?_of_above hports) _
  refine Ends.bind (handFill_yields fun d hne hd => Ends.bind (cacheAt_yields fun c hc => ?_))
  have hpush := h.pushFill hd (fun n => hw _ n hne) r
  rw [hr, if_neg Bool.false_ne_true, ← htop] at hpush
  refine record_ends (Outlined.noted ?_ _ fun _ => rfl)
  rw [← htop]
  exact hpush

theorem writeBack_outlined (h : m.Outlined v w asked o) (hw : ∀ n, w ≠ some (.writeBacks i, n))
    (addr : Nat) : Yields (fun _ m' => m'.Outlined v w asked o) (writeBack i addr m) := by
  refine Ends.bind (freshId_yields (Ends.bind (cacheAt_yields fun c hc => ?_)))
  have hfresh := h.with_nextId
  have hannounced : Yields (fun _ m' => m'.Outlined v w asked o ∧ m'.caches[i]? = some c)
      (announceBelow i c.below (Request.ofWriteBack m.nextId addr c.cycle).note
        { m with nextId := m.nextId + 1 }) := by
    unfold announceBelow
    cases c.below with
    | memory => exact ⟨hfresh.with_expected _ _, hc⟩
    | cache j =>
      refine Ends.bind (neighbour_yields fun d hne hd => setCache_ends ⟨?_, ?_⟩)
      · exact hfresh.put_expected hd _
      · rw [caches_put_ne _ hne.symm]
        exact hc
  refine Ends.seq hannounced fun _ m' ⟨h', hc'⟩ => Ends.bind (record_ends (setCache_ends ?_))
  have hnoted := h'.noted (.wroteBack i (Request.ofWriteBack m.nextId addr c.cycle) c.cycle)
    fun _ => rfl
  exact hnoted.pushWriteBack hc' hw rfl le_rfl

theorem writeStraightBack_outlined (h : m.Outlined v w asked o) (hw : ∀ n, w ≠ some (.memory, n))
    (addr cycle : Nat) :
    Yields (fun _ m' => m'.Outlined v w asked o) (writeStraightBack addr cycle m) := by
  refine Ends.bind (freshId_yields (sendToMemory_yields ?_))
  have hannounced := (h.with_nextId).with_expected
    (m.memory.expected.announce (Request.ofWriteBack m.nextId addr cycle).note)
    m.memory.writeBacks
  exact hannounced.accepting hw (.ofWriteBack m.nextId addr cycle)

theorem divertWriteBack_outlined (h : m.Outlined v w asked o) (hw : ∀ n, w ≠ some (.memory, n))
    (hr : r.kind.isWriteBack = true) :
    Yields (fun _ m' => m'.Outlined v w asked o) (divertWriteBack b r m) := by
  refine Ends.bind (cacheAt_yields fun c hc => ?_)
  cases c.expected.settle? r.id with
  | none => trivial
  | some settled =>
    obtain ⟨note, expected⟩ := settled
    refine Ends.bind (setCache_ends (Ends.bind (record_ends (sendToMemory_yields ?_))))
    have hcounted := h.put_counters c.tags.counters.countWriteBack (g := id) hc rfl
      expected
    rw [Outline.count_id] at hcounted
    have hnoted := hcounted.noted (.diverted b r c.cycle) fun _ => rfl
    have haccepted := (hnoted.with_expected (m.memory.expected.announce note)
      m.memory.writeBacks).accepting hw r
    rw [hr] at haccepted
    exact haccepted

theorem filter_kept (lineSize line : Nat) (items : List Request) :
    (items.filter fun r => !Cache.isWriteBackOf lineSize line r).filter
        (fun r => !r.kind.isWriteBack) = items.filter fun r => !r.kind.isWriteBack := by
  rw [List.filter_filter]
  congr 1
  funext r
  cases hr : r.kind.isWriteBack <;> simp [Cache.isWriteBackOf, hr]

theorem recallWriteBacks_outlined (h : m.Outlined v w asked o) {d : Cache}
    (hd : m.caches[j]? = some d) (lineSize line : Nat) :
    (m.put j (d.recallWriteBacks lineSize line).2).Outlined v w asked o := by
  have hregular := h.regular.caches j d hd
  have hsublist : ∀ q : GatedQueue Request,
      (q.items.filter fun r => !Cache.isWriteBackOf lineSize line r) ⊆ q.items := fun q =>
    List.filter_subset_self _
  have hmade := h.put_writeBacks { d with
      writeBacks := ⟨d.writeBacks.items.filter fun r => !Cache.isWriteBackOf lineSize line r⟩ }
    (.writeBacks j) _ hd
    { hregular with writeBacks := fun r hr => hregular.writeBacks r (hsublist _ hr) } rfl rfl rfl
    (itemsAt_put_writeBacks hd _) (by
      rw [filter_kept, itemsAt, view_eq hd])
    fun _ _ => by
      rw [itemsAt, view_eq hd]
      exact List.length_filter_le ..
  have hd' := caches_put_self hd { d with
    writeBacks := ⟨d.writeBacks.items.filter fun r => !Cache.isWriteBackOf lineSize line r⟩ }
  have hregular' := hmade.regular.caches j _ hd'
  have hsent := hmade.put_writeBacks (d.recallWriteBacks lineSize line).2 (.sends j) _ hd'
    { hregular' with sends := fun r hr => hregular.sends r (hsublist _ hr) } rfl rfl rfl
    (itemsAt_put_sends hd' _) (by
      rw [filter_kept, itemsAt, view_eq hd'])
    fun _ _ => by
      rw [itemsAt, view_eq hd']
      exact List.length_filter_le ..
  rwa [put_put] at hsent

theorem recallFrom_outlined (h : m.Outlined v w asked o) (lineSize line : Nat)
    (ports : List (Side × Nat)) :
    Yields (fun recalled m' => m'.Outlined v w asked o ∧
      ∀ r ∈ recalled, r.kind.isWriteBack = true) (recallFrom b lineSize line ports m) := by
  induction ports generalizing m with
  | nil => exact ⟨h, by simp⟩
  | cons port rest ih =>
    refine Ends.bind (neighbour_yields fun d hne hd => ?_)
    refine Ends.bind (setCache_ends (Ends.seq (ih (recallWriteBacks_outlined h hd _ _)) ?_))
    intro recalled m' ⟨h', hrecalled⟩
    refine ⟨h', fun r hr => ?_⟩
    simp only [List.mem_append, List.mem_filter, Cache.isWriteBackOf, Bool.and_eq_true] at hr
    rcases hr with (⟨-, hr, -⟩ | ⟨-, hr, -⟩) | hr
    · exact hr
    · exact hr
    · exact hrecalled r hr

theorem divertWriteBacks_outlined (h : m.Outlined v w asked o) (hw : ∀ n, w ≠ some (.memory, n))
    (addr : Nat) : Yields (fun _ m' => m'.Outlined v w asked o) (divertWriteBacks b addr m) := by
  refine Ends.bind (cacheAt_yields fun c hc => ?_)
  have hregular := h.regular.caches b c hc
  have harrived := h.put_writeBacks { c with
      fills := (c.fills.takeWhere (Cache.isWriteBackOf c.tags.geometry.lineSize
        (c.tags.geometry.lineOf addr))).2 } (.fills b) _ hc
    { hregular with fills := hregular.fills.sublist List.filter_sublist } rfl rfl rfl
    (itemsAt_put_fills hc _) (by
      rw [GatedQueue.takeWhere_snd_items, filter_kept, itemsAt, view_eq hc])
    fun _ _ => by
      rw [itemsAt, view_eq hc]
      exact List.length_filter_le ..
  refine Ends.bind (setCache_ends (Ends.seq (recallFrom_outlined harrived _ _ _) ?_))
  rintro recalled m' ⟨h', hrecalled⟩
  let I (rest : List Request) (m : Machine) : Prop :=
    m.Outlined v w asked o ∧ ∀ r ∈ rest, r.kind.isWriteBack = true
  refine (Ends.forM (I := I) ?_ ⟨h', ?_⟩).mono (fun _ _ h'' => h''.1) fun _ _ => id
  · rintro r rest m ⟨h, hrest⟩
    refine (divertWriteBack_outlined h hw (hrest r List.mem_cons_self)).mono ?_ fun _ _ => id
    exact fun _ _ h' => ⟨h', fun r hr => hrest r (List.mem_cons_of_mem _ hr)⟩
  · intro r hr
    simp only [List.mem_append, List.mem_filter, Cache.isWriteBackOf, Bool.and_eq_true] at hr
    rcases hr with ⟨-, hr, -⟩ | hr
    · exact hr
    · exact hrecalled r hr

theorem backInvalidate_outlined (h : m.Outlined v w asked o) (hw : ∀ n, w ≠ some (.memory, n))
    (addr : Nat) (side : Side) (l : Line) :
    Yields (fun _ m' => m'.Outlined v w asked
        ((o.alter v.plan j (v.plan.line j addr) LineSet.remove).count j
          (·.countBackInvalidation false)))
      (backInvalidate j addr side l m) := by
  refine Ends.bind (cacheAt_yields fun c hc => ?_)
  split
  · trivial
  refine Ends.bind (Yields.attempt fun result hresult => ?_)
  obtain ⟨dirty, tags⟩ := result
  obtain ⟨-, hturns⟩ := TagArray.backInvalidate_inv hresult
  have hput := h.put_tags _ (g := (·.countBackInvalidation false)) hc hturns
    (fun s tag => s.clean_remove tag) (c.tags.counters.bare_countBackInvalidation dirty) c.expected
  rw [(h.regular.caches j c hc).line_eq] at hput
  have hnoted := hput.noted (.backInvalidated j addr dirty c.cycle) fun _ => rfl
  refine Ends.bind (setCache_ends (Ends.bind (record_ends ?_)))
  cases dirty with
  | false => exact hnoted
  | true => exact writeStraightBack_outlined hnoted hw addr c.cycle

theorem holds_of_line? {t : TagArray} {addr : Nat} {l? : Option Line} (h : t.line? addr = .ok l?) :
    t.geometry.holds t.row (t.geometry.lineOf addr) = l?.isSome := by
  rw [TagArray.line?_inv h, TagArray.holds_eq]
  cases hfind : (t.rowOf addr).find? (t.geometry.lineOf addr / t.geometry.numSets) with
  | none => rfl
  | some way =>
    obtain ⟨d, hd⟩ := LineSet.line?_of_find? hfind
    rw [Option.bind_some, hd]
    rfl

/-- The fills of a line in an outline are those that would install it. -/
theorem errands_bypassFills {c : Cache} (hj : j < v.plan.topology.size) (hc : c.Regular v.plan j)
    (addr : Nat) :
    Request.errands v asked (c.bypassFills addr).fills.items =
      (Request.errands v asked c.fills.items).map fun e =>
        if e.line j = v.plan.line j addr then { e with bypass := true } else e := by
  have hline : ∀ a, c.tags.geometry.lineOf a = v.plan.line j a := hc.line_eq
  simp only [Cache.bypassFills, GatedQueue.items_map, Request.errands, List.filter_map,
    List.map_map]
  have hkeep : ((fun r : Request => !r.kind.isWriteBack) ∘ fun r =>
      if c.wouldInstall addr r then { r with bypass := true } else r) =
      fun r => !r.kind.isWriteBack := by
    funext r
    simp only [Function.comp]
    split <;> rfl
  rw [hkeep]
  refine List.map_congr_left fun r hr => ?_
  have hr : r.kind.isWriteBack = false := by simpa using (List.mem_filter.1 hr).2
  have hwould : c.wouldInstall addr r = true ↔ v.plan.line j r.addr = v.plan.line j addr := by
    rw [Cache.wouldInstall, hr, Bool.not_false, Bool.true_and, Request.isOnLine, beq_iff_eq,
      ← hline, ← hline]
    rfl
  simp only [Function.comp, hwould]
  by_cases heq : v.plan.line j r.addr = v.plan.line j addr
  · simp only [heq, if_true, Request.errand, Plan.lines_of_lt hj]
    rfl
  · simp [heq, Request.errand, Plan.lines_of_lt hj]

/-- A first-level cache gives up a line that the base has displaced. -/
theorem withdrawFrom_outlined {n victim : Nat} (h : m.Outlined v (some (.fills b, n)) asked o)
    (port : Side × Nat) :
    Yields (fun _ m' => m'.Outlined v (some (.fills b, n)) asked
        (o.withdrawFrom v.plan b victim port))
      (withdrawFrom b (v.plan.base b victim) port m) := by
  obtain ⟨side, j⟩ := port
  refine Ends.bind (neighbour_yields fun d hne hd => Ends.bind (Yields.attempt fun l? hl => ?_))
  have hregular := h.regular.caches j d hd
  have hj := h.regular.lt_size hd
  have hholds := holds_of_line? hl
  rw [← h.holds_eq hd, hregular.line_eq] at hholds
  rw [Outline.withdrawFrom, hholds]
  cases l? with
  | some l => exact backInvalidate_outlined h (by simp) _ side l
  | none =>
    have hitems : d.fills.items = m.itemsAt (.fills j) := by rw [itemsAt, view_eq hd]
    dsimp only [Option.isSome_none]
    rw [if_neg Bool.false_ne_true]
    cases hawaits : d.awaits (v.plan.base b victim) with
    | true =>
      refine Ends.bind (setCache_ends (Ends.bind (cacheAt_yields fun c hc => record_ends ?_)))
      refine Outlined.noted ?_ _ fun _ => rfl
      have hput := h.put_queue (d.bypassFills (v.plan.base b victim)) (.fills j)
        (d.bypassFills (v.plan.base b victim)).fills.items (some (.fills b, n)) hd
        { hregular with fills := hregular.fills.map fun r => by split <;> rfl } rfl rfl rfl
        (itemsAt_put_fills hd _) fun s k hs => by
          cases hs
          rw [Function.update_of_ne (fun h => hne (Spot.fills.inj h).symm)]
          exact h.length_le _ _ rfl
      rw [errands_bypassFills hj hregular, hitems, ← h.queue_eq] at hput
      exact hput
    | false =>
      have hnone : (d.bypassFills (v.plan.base b victim)).fills.items = d.fills.items := by
        refine (List.map_congr_left fun r hr => ?_).trans (List.map_id _)
        rw [if_neg]
        · rfl
        · exact fun hr' => Bool.false_ne_true (hawaits ▸ List.any_eq_true.2 ⟨r, hr, hr'⟩)
      have hsame : o.overtake j (v.plan.line j (v.plan.base b victim)) = o := by
        rw [Outline.overtake, h.queue_eq, ← hitems, ← errands_bypassFills hj hregular, hnone, hitems,
          ← h.queue_eq, Function.update_eq_self]
      rw [hsame]
      exact h

theorem withdrawAbove_outlined {victim : Nat} {ports : Ports}
    (hports : v.plan.topology.above b = .caches ports)
    (h : m.Outlined v (some (.fills b, n)) asked o) :
    Yields (fun _ m' => m'.Outlined v (some (.fills b, n)) asked
        (v.plan.topology.ports.foldl (Outline.withdrawFrom v.plan b victim) o))
      (withdrawAbove b (v.plan.base b victim) m) := by
  refine Ends.bind (cacheAt_yields fun c hc => ?_)
  have hneighbours : c.above.neighbours = v.plan.topology.ports := by
    rw [(h.regular.caches b c hc).above, hports,
      Topology.ports_of_entry? (Topology.entry?_of_above hports)]
    rfl
  rw [hneighbours]
  clear hneighbours hc
  induction v.plan.topology.ports generalizing m o with
  | nil => exact h
  | cons port rest ih => exact Ends.seq (withdrawFrom_outlined h port) fun _ _ h' => ih h'

end Machine

end CacheHierarchy
