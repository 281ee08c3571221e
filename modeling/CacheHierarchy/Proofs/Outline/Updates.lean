import CacheHierarchy.Proofs.Outline.Vantage

/-!
# Changes of an outline

One lemma for each way in which an action changes a machine: how the change shows in the outline,
and that the machine stays regular. Whatever has to do with write-backs does not show.
-/

namespace CacheHierarchy

variable {α : Type}

@[simp] theorem Outline.count_id (o : Outline α) (i : Nat) : o.count i id = o := by
  simp only [count, id, Function.update_eq_self]

@[simp] theorem Outline.alter_id (p : Plan) (i line : Nat) (o : Outline α) :
    o.alter p i line (fun s _ => s) = o := by
  simp only [alter, Geometry.alter, Function.update_eq_self]

theorem Outline.push_errands (v : Vantage α) (asked : Nat → List Bool) (s : Spot) (r : Request)
    (o : Outline α) :
    { o with queue := Function.update o.queue s (o.queue s ++ Request.errands v asked [r]) } =
      if r.kind.isWriteBack then o else o.push s (r.errand v asked) := by
  cases hr : r.kind.isWriteBack with
  | true => simp [Request.errands, hr]
  | false => simp [Request.errands, hr, push]

namespace Machine

variable {v : Vantage α} {m : Machine} {i : Nat} {c : Cache}

section Items

variable (hc : m.caches[i]? = some c) (c' : Cache)

include hc

/-- Putting another cache in a place changes what is at the spots of that place. -/
theorem itemsAt_put : (m.put i c').itemsAt = fun
    | .lookups j => Function.update (fun j => m.itemsAt (.lookups j)) i c'.lookups.items j
    | .fills j => Function.update (fun j => m.itemsAt (.fills j)) i c'.fills.items j
    | .sends j => Function.update (fun j => m.itemsAt (.sends j)) i c'.sends.items j
    | .writeBacks j => Function.update (fun j => m.itemsAt (.writeBacks j)) i c'.writeBacks.items j
    | s => m.itemsAt s := by
  funext s
  cases s with
  | memory | finished => rfl
  | _ => exact congrFun (view_put hc c' _ _) _

theorem itemsAt_put_lookups (lookups : GatedQueue Request) :
    (m.put i { c with lookups }).itemsAt = Function.update m.itemsAt (.lookups i) lookups.items := by
  rw [itemsAt_put hc]
  funext s
  cases s <;> simp [Function.update_apply, itemsAt] <;> rintro rfl <;> simp [view, hc]

theorem itemsAt_put_fills (fills : GatedQueue Request) :
    (m.put i { c with fills }).itemsAt = Function.update m.itemsAt (.fills i) fills.items := by
  rw [itemsAt_put hc]
  funext s
  cases s <;> simp [Function.update_apply, itemsAt] <;> rintro rfl <;> simp [view, hc]

theorem itemsAt_put_sends (sends : GatedQueue Request) :
    (m.put i { c with sends }).itemsAt = Function.update m.itemsAt (.sends i) sends.items := by
  rw [itemsAt_put hc]
  funext s
  cases s <;> simp [Function.update_apply, itemsAt] <;> rintro rfl <;> simp [view, hc]

theorem itemsAt_put_writeBacks (writeBacks : GatedQueue Request) :
    (m.put i { c with writeBacks }).itemsAt = Function.update m.itemsAt (.writeBacks i) writeBacks.items := by
  rw [itemsAt_put hc]
  funext s
  cases s <;> simp [Function.update_apply, itemsAt] <;> rintro rfl <;> simp [view, hc]

omit c' in
theorem itemsAt_put_same (c' : Cache) (hlookups : c'.lookups = c.lookups)
    (hfills : c'.fills = c.fills) (hsends : c'.sends = c.sends)
    (hwriteBacks : c'.writeBacks = c.writeBacks) : (m.put i c').itemsAt = m.itemsAt := by
  rw [itemsAt_put hc, hlookups, hfills, hsends, hwriteBacks]
  funext s
  cases s <;> simp [Function.update_apply, itemsAt] <;> rintro rfl <;> simp [view, hc]

theorem clockAt_put : (m.put i c').clockAt = Function.update m.clockAt (.cache i) c'.cycle := by
  funext site
  cases site with
  | memory => rfl
  | cache j =>
    refine (congrFun (view_put hc c' _ _) _).trans ?_
    simp [Function.update_apply, clockAt]

theorem latencyAt_put :
    (m.put i c').latencyAt = Function.update m.latencyAt (.cache i) c'.latency := by
  funext site
  cases site with
  | memory => rfl
  | cache j =>
    refine (congrFun (view_put hc c' _ _) _).trans ?_
    simp [Function.update_apply, latencyAt]

theorem outline_put : (m.put i c').outline v = { m.outline v with
    queue := fun s => Request.errands v (askedIn v.plan.topology.base? m.journal)
      ((m.put i c').itemsAt s)
    rows := Function.update (m.outline v).rows i fun k => (c'.tags.row k).clean
    counters := Function.update (m.outline v).counters i c'.tags.counters.bare
    clock := Function.update (m.outline v).clock (.cache i) c'.cycle
    latency := Function.update (m.outline v).latency (.cache i) c'.latency } := by
  simp only [outline, view_put hc, clockAt_put hc, latencyAt_put hc]
  rfl

end Items

theorem Regular.put {p : Plan} (h : m.Regular p) {c' : Cache} (hc' : c'.Regular p i) :
    (m.put i c').Regular p := by
  refine ⟨?_, fun j d hd => ?_, h.memory, h.above⟩
  · rw [← h.length]
    exact List.length_set
  · by_cases hj : j = i
    · subst hj
      have hlt : j < (m.caches.set j c').length := (List.getElem?_eq_some_iff.1 hd).1
      rw [List.length_set] at hlt
      rw [Machine.put, List.getElem?_set_self hlt] at hd
      cases hd
      exact hc'
    · rw [caches_put_ne c' hj] at hd
      exact h.caches j d hd

namespace Outlined

variable {w : Option (Spot × Nat)} {asked : Nat → List Bool} {o : Outline α}
  (h : m.Outlined v w asked o)

include h

theorem queue_eq (s : Spot) : o.queue s = Request.errands v asked (m.itemsAt s) := by
  rw [← h.outline, ← h.asked]
  rfl

theorem queue_of_items : (fun s => Request.errands v asked (m.itemsAt s)) = o.queue :=
  funext fun s => (h.queue_eq s).symm

section Cache

variable (hc : m.caches[i]? = some c)

include hc

theorem rows_eq : o.rows i = fun k => (c.tags.row k).clean := by
  rw [← h.outline]
  exact view_eq hc _ _

theorem counters_eq : o.counters i = c.tags.counters.bare := by
  rw [← h.outline]
  exact view_eq hc _ _

theorem clock_eq : o.clock (.cache i) = c.cycle := by
  rw [← h.outline]
  exact view_eq hc _ _

theorem latency_eq : o.latency (.cache i) = c.latency := by
  rw [← h.outline]
  exact view_eq hc _ _

theorem holds_eq (line : Nat) :
    o.holds v.plan i line = c.tags.geometry.holds c.tags.row line := by
  rw [Outline.holds, h.rows_eq hc, Geometry.holds_clean, (h.regular.caches i c hc).geometry]

end Cache

theorem queue_update (s : Spot) (items : List Request) :
    (fun s' => Request.errands v asked (Function.update m.itemsAt s items s')) =
      Function.update o.queue s (Request.errands v asked items) := by
  funext s'
  by_cases hs : s' = s
  · subst hs
    simp
  · simp [hs, h.queue_eq]

theorem put_queue (c' : Cache) (s : Spot) (items : List Request) (w' : Option (Spot × Nat))
    (hc : m.caches[i]? = some c) (hregular : c'.Regular v.plan i) (htags : c'.tags = c.tags) (hcycle : c'.cycle = c.cycle)
    (hlatency : c'.latency = c.latency)
    (hitems : (m.put i c').itemsAt = Function.update m.itemsAt s items)
    (hlength : ∀ s' n, w' = some (s', n) →
      (Function.update m.itemsAt s items s').length ≤ n) :
    (m.put i c').Outlined v w' asked
      { o with queue := Function.update o.queue s (Request.errands v asked items) } := by
  refine ⟨h.regular.put hregular, h.unasked, h.asked, ?_, hitems ▸ hlength⟩
  have hrows := h.rows_eq hc
  have hcounters := h.counters_eq hc
  have hclock := h.clock_eq hc
  have hlatency' := h.latency_eq hc
  rw [outline_put hc, hitems, htags, hcycle, hlatency, h.outline, ← hrows, ← hcounters, ← hclock,
    ← hlatency', Function.update_eq_self, Function.update_eq_self, Function.update_eq_self,
    Function.update_eq_self, h.asked]
  rw [← h.queue_update]

theorem put_push (c' : Cache) (s : Spot) (r : Request) (hc : m.caches[i]? = some c)
    (hregular : c'.Regular v.plan i) (htags : c'.tags = c.tags) (hcycle : c'.cycle = c.cycle)
    (hlatency : c'.latency = c.latency)
    (hitems : (m.put i c').itemsAt = Function.update m.itemsAt s (m.itemsAt s ++ [r]))
    (hw : ∀ n, w ≠ some (s, n)) :
    (m.put i c').Outlined v w asked
      (if r.kind.isWriteBack then o else o.push s (r.errand v asked)) := by
  have hput := h.put_queue c' s _ w hc hregular htags hcycle hlatency hitems fun s' n hs => by
    rw [Function.update_of_ne]
    · exact h.length_le s' n hs
    · rintro rfl
      exact hw n hs
  rwa [Request.errands_append, ← h.queue_eq, Outline.push_errands] at hput

theorem pushFill (hc : m.caches[i]? = some c) (hw : ∀ n, w ≠ some (.fills i, n)) (r : Request) :
    (m.put i { c with
      fills := c.fills.push { r with readyAt := c.cycle + c.latency } }).Outlined v w asked
      (if r.kind.isWriteBack then o else o.arrive (.fills i) (.cache i) (r.errand v asked)) := by
  have hregular := h.regular.caches i c hc
  have hitems : m.itemsAt (.fills i) = c.fills.items := view_eq hc _ _
  have hpush := h.put_push
    { c with fills := c.fills.push { r with readyAt := c.cycle + c.latency } } (.fills i)
    { r with readyAt := c.cycle + c.latency } hc
    { hregular with fills := hregular.fills.push rfl } rfl rfl rfl
    (by rw [itemsAt_put_fills hc, hitems, GatedQueue.items_push]) hw
  rw [Outline.arrive, h.clock_eq hc, h.latency_eq hc]
  exact hpush

theorem pushLookup (hc : m.caches[i]? = some c) (hw : ∀ n, w ≠ some (.lookups i, n)) {r : Request}
    (hr : r.kind.isWriteBack = false) :
    (m.put i { c with
      lookups := c.lookups.push { r with readyAt := c.cycle + c.latency } }).Outlined v w asked
      (o.arrive (.lookups i) (.cache i) (r.errand v asked)) := by
  have hregular := h.regular.caches i c hc
  have hitems : m.itemsAt (.lookups i) = c.lookups.items := view_eq hc _ _
  have hpush := h.put_push
    { c with lookups := c.lookups.push { r with readyAt := c.cycle + c.latency } } (.lookups i)
    { r with readyAt := c.cycle + c.latency } hc
    { hregular with lookups := hregular.lookups.push rfl } rfl rfl rfl
    (by rw [itemsAt_put_lookups hc, hitems, GatedQueue.items_push]) hw
  rw [hr] at hpush
  rw [Outline.arrive, h.clock_eq hc, h.latency_eq hc]
  exact hpush

theorem pushSend (hc : m.caches[i]? = some c) (hw : ∀ n, w ≠ some (.sends i, n)) {r : Request}
    (hr : r.kind.isWriteBack = false) (hready : r.readyAt ≤ c.cycle) :
    (m.put i { c with sends := c.sends.push r }).Outlined v w asked
      (o.push (.sends i) (r.errand v asked)) := by
  have hregular := h.regular.caches i c hc
  have hitems : m.itemsAt (.sends i) = c.sends.items := view_eq hc _ _
  have hpush := h.put_push { c with sends := c.sends.push r } (.sends i) r hc
    { hregular with
      sends := by
        simp only [GatedQueue.items_push, List.mem_append, List.mem_singleton]
        rintro r' (hr' | rfl)
        · exact hregular.sends r' hr'
        · exact hready } rfl rfl rfl
    (by rw [itemsAt_put_sends hc, hitems, GatedQueue.items_push]) hw
  rwa [hr] at hpush

theorem pushWriteBack (hc : m.caches[i]? = some c) (hw : ∀ n, w ≠ some (.writeBacks i, n))
    {r : Request} (hr : r.kind.isWriteBack = true) (hready : r.readyAt ≤ c.cycle) :
    (m.put i { c with writeBacks := c.writeBacks.push r }).Outlined v w asked o := by
  have hregular := h.regular.caches i c hc
  have hitems : m.itemsAt (.writeBacks i) = c.writeBacks.items := view_eq hc _ _
  have hpush := h.put_push { c with writeBacks := c.writeBacks.push r } (.writeBacks i) r hc
    { hregular with
      writeBacks := by
        simp only [GatedQueue.items_push, List.mem_append, List.mem_singleton]
        rintro r' (hr' | rfl)
        · exact hregular.writeBacks r' hr'
        · exact ⟨hr, hready⟩ } rfl rfl rfl
    (by rw [itemsAt_put_writeBacks hc, hitems, GatedQueue.items_push]) hw
  rwa [hr] at hpush

theorem put_tags (f' : LineSet → Nat → LineSet) (hc : m.caches[i]? = some c) {tags : TagArray}
    {line : Nat} {f : LineSet → Nat → LineSet} {counters : Counters} {g : Counters → Counters}
    (hturns : c.tags.Turns tags (c.tags.geometry.alter c.tags.row line f) counters)
    (hf : ∀ s tag, (f s tag).clean = f' s.clean tag)
    (hg : counters.bare = g c.tags.counters.bare) (expected : WriteBackLedger) :
    (m.put i { c with tags, expected }).Outlined v w asked
      ((o.alter v.plan i line f').count i g) := by
  have hregular := h.regular.caches i c hc
  have hitems := itemsAt_put_same hc { c with tags, expected } rfl rfl rfl rfl
  refine ⟨h.regular.put { hregular with geometry := hturns.geometry.trans hregular.geometry },
    h.unasked, h.asked, ?_, hitems ▸ h.length_le⟩
  have hrows := h.rows_eq hc
  have hcounters := h.counters_eq hc
  have hclock := h.clock_eq hc
  have hlatency := h.latency_eq hc
  have hqueue := h.queue_of_items
  rw [outline_put hc, hitems, h.outline, h.asked, hqueue, hturns.rows, hturns.counters,
    Geometry.clean_alter _ _ _ hf, hg, ← hrows, ← hcounters, ← hclock, ← hlatency,
    Function.update_eq_self, Function.update_eq_self, hregular.geometry]
  rfl

theorem put_counters (counters : Counters) (hc : m.caches[i]? = some c)
    {g : Counters → Counters} (hg : counters.bare = g c.tags.counters.bare)
    (expected : WriteBackLedger) :
    (m.put i { c with tags := { c.tags with counters }, expected }).Outlined v w asked
      (o.count i g) := by
  have hturns : c.tags.Turns { c.tags with counters }
      (c.tags.geometry.alter c.tags.row 0 fun s _ => s) counters := by
    refine ⟨rfl, ?_, rfl⟩
    rw [Geometry.alter, Function.update_eq_self]
    rfl
  have hput := h.put_tags (fun s _ => s) hc hturns (fun _ _ => rfl) hg expected
  rwa [Outline.alter_id] at hput

theorem put_row (hc : m.caches[i]? = some c) {tags : TagArray} {line : Nat}
    {f f' : LineSet → Nat → LineSet} {counters : Counters}
    (hturns : c.tags.Turns tags (c.tags.geometry.alter c.tags.row line f) counters)
    (hf : ∀ s tag, (f s tag).clean = f' s.clean tag)
    (hcounters : counters.bare = c.tags.counters.bare) :
    (m.put i { c with tags }).Outlined v w asked (o.alter v.plan i line f') := by
  have hput := h.put_tags f' (g := id) hc hturns hf hcounters c.expected
  rwa [Outline.count_id] at hput

theorem put_expected (hc : m.caches[i]? = some c) (expected : WriteBackLedger) :
    (m.put i { c with expected }).Outlined v w asked o := by
  have hput := h.put_counters c.tags.counters (g := id) hc rfl expected
  rwa [Outline.count_id] at hput

theorem advance (hc : m.caches[i]? = some c) :
    (m.put i { c with cycle := c.cycle + 1 }).Outlined v w asked (o.advance (.cache i)) := by
  have hregular := h.regular.caches i c hc
  have hitems := itemsAt_put_same hc { c with cycle := c.cycle + 1 } rfl rfl rfl rfl
  have hle : c.cycle + c.latency ≤ c.cycle + 1 + c.latency := by omega
  refine ⟨h.regular.put { hregular with
      lookups := hregular.lookups.mono hle
      fills := hregular.fills.mono hle
      sends := fun r hr => (hregular.sends r hr).trans (Nat.le_succ _)
      writeBacks := fun r hr => ⟨(hregular.writeBacks r hr).1,
        (hregular.writeBacks r hr).2.trans (Nat.le_succ _)⟩ },
    h.unasked, h.asked, ?_, hitems ▸ h.length_le⟩
  have hrows := h.rows_eq hc
  have hcounters := h.counters_eq hc
  have hclock := h.clock_eq hc
  have hlatency := h.latency_eq hc
  have hqueue := h.queue_of_items
  rw [outline_put hc, hitems, h.outline, h.asked, hqueue, ← hrows, ← hcounters, ← hclock,
    ← hlatency, Function.update_eq_self, Function.update_eq_self, Function.update_eq_self]
  rfl

theorem put_writeBacks (c' : Cache) (s : Spot) (items : List Request)
    (hc : m.caches[i]? = some c) (hregular : c'.Regular v.plan i) (htags : c'.tags = c.tags)
    (hcycle : c'.cycle = c.cycle) (hlatency : c'.latency = c.latency)
    (hitems : (m.put i c').itemsAt = Function.update m.itemsAt s items)
    (hdemand : items.filter (fun r => !r.kind.isWriteBack) =
      (m.itemsAt s).filter fun r => !r.kind.isWriteBack)
    (hlength : ∀ n, w = some (s, n) → items.length ≤ (m.itemsAt s).length) :
    (m.put i c').Outlined v w asked o := by
  have hput := h.put_queue c' s _ w hc hregular htags hcycle hlatency hitems fun s' n hs => by
    by_cases hs' : s' = s
    · subst hs'
      rw [Function.update_self]
      exact (hlength n hs).trans (h.length_le s' n hs)
    · rw [Function.update_of_ne hs']
      exact h.length_le s' n hs
  have herrands : Request.errands v asked items = o.queue s := by
    rw [h.queue_eq, Request.errands, Request.errands, hdemand]
  rwa [herrands, Function.update_eq_self] at hput

/-! What happens outside the caches. -/

/-- An entry of the journal that is no look-up at the base does not show. -/
theorem noted (event : Event)
    (hevent : ∀ id, event.verdict? v.plan.topology.base? id = none) :
    (m.noted event).Outlined v w asked o := by
  have hasked : askedIn v.plan.topology.base? (event :: m.journal) =
      askedIn v.plan.topology.base? m.journal := by
    funext id
    exact List.filterMap_cons_none (hevent id)
  refine ⟨⟨h.regular.length, h.regular.caches, h.regular.memory, h.regular.above⟩,
    h.unasked, hasked.trans h.asked, ?_, h.length_le⟩
  rw [← h.outline]
  simp only [Machine.outline, Machine.noted, hasked]
  rfl

/-- A look-up at the base tells the errand that it is for what it found. -/
theorem noted_lookedUp (hit : Bool) (cycle : Nat) {b : Nat} {r : Request}
    (hb : v.plan.topology.base? = some b) (hr : r.id < m.nextId)
    (hitems : ∀ s, ∀ r' ∈ m.itemsAt s, r'.kind.isWriteBack = false → r'.id ≠ r.id)
    (hcompletions : ∀ d ∈ v.completions, d.id ≠ r.id) :
    (m.noted (.lookedUp b r hit cycle)).Outlined v w
      (Function.update asked r.id (hit :: asked r.id)) o := by
  have hasked : askedIn v.plan.topology.base? (.lookedUp b r hit cycle :: m.journal) =
      Function.update asked r.id (hit :: asked r.id) := by
    funext id
    by_cases hid : id = r.id
    · subst hid
      simp [askedIn, Event.verdict?, hb, ← h.asked]
    · simp [askedIn, Event.verdict?, hid, Ne.symm hid, ← h.asked]
  refine ⟨⟨h.regular.length, h.regular.caches, h.regular.memory, h.regular.above⟩,
    fun id hid => ?_, hasked, ?_, h.length_le⟩
  · rw [Function.update_of_ne (hr.trans_le hid).ne']
    exact h.unasked id hid
  have hqueue : (fun s => Request.errands v (Function.update asked r.id (hit :: asked r.id))
      (m.itemsAt s)) = o.queue := by
    funext s
    rw [h.queue_eq]
    refine Request.errands_congr v asked _ fun r' hr' hkind => ?_
    rw [Function.update_of_ne (hitems s r' hr' hkind)]
  have hdone : v.completions.map
      (Completion.outcome v (Function.update asked r.id (hit :: asked r.id))) = o.done := by
    rw [← h.outline, Machine.outline, h.asked]
    refine List.map_congr_left fun d hd => ?_
    rw [Completion.outcome, Completion.outcome, Function.update_of_ne (hcompletions d hd)]
  calc (m.noted (.lookedUp b r hit cycle)).outline v
      = { m.outline v with queue := o.queue, done := o.done } := by
        rw [← hqueue, ← hdone, ← hasked]
        rfl
    _ = o := by rw [h.outline]

theorem with_nextId : Outlined v w asked o { m with nextId := m.nextId + 1 } :=
  ⟨⟨h.regular.length, h.regular.caches, h.regular.memory, h.regular.above⟩,
    fun id hid => h.unasked id (Nat.le_of_succ_le hid), h.asked, h.outline, h.length_le⟩

theorem with_expected (expected : WriteBackLedger) (writeBacks : Nat) :
    Outlined v w asked o { m with memory := { m.memory with expected, writeBacks } } :=
  ⟨⟨h.regular.length, h.regular.caches, h.regular.memory, h.regular.above⟩, h.unasked, h.asked,
    h.outline, h.length_le⟩

theorem with_table (outstanding : Outstanding) :
    Outlined v w asked { o with inFlight := outstanding.length } { m with outstanding } := by
  refine ⟨⟨h.regular.length, h.regular.caches, h.regular.memory, h.regular.above⟩, h.unasked,
    h.asked, ?_, h.length_le⟩
  rw [← h.outline]
  rfl

theorem with_outstanding (outstanding : Outstanding)
    (hids : outstanding.ids = m.outstanding.ids) :
    Outlined v w asked o { m with outstanding } := by
  have hlength : outstanding.length = o.inFlight := by
    have hlength := congrArg List.length hids
    rw [Outstanding.ids, Outstanding.ids, List.length_map, List.length_map] at hlength
    rw [← h.outline]
    exact hlength
  have htable := h.with_table outstanding
  rwa [hlength] at htable

theorem with_completions (completions : List Completion) :
    m.Outlined { v with completions } w asked
      { o with done := completions.map (Completion.outcome v asked) } := by
  refine ⟨h.regular, h.unasked, h.asked, ?_, h.length_le⟩
  rw [← h.outline, ← h.asked]
  rfl

theorem with_now (now : Nat) : m.Outlined { v with now } w asked { o with now } := by
  refine ⟨h.regular, h.unasked, h.asked, ?_, h.length_le⟩
  rw [← h.outline]
  rfl

theorem with_items (m' : Machine) (s : Spot) (items : List Request) (w' : Option (Spot × Nat))
    (hregular : m'.Regular v.plan)
    (hitems : m'.itemsAt = Function.update m.itemsAt s items)
    (hasked : askedIn v.plan.topology.base? m'.journal =
      askedIn v.plan.topology.base? m.journal) (hnext : m'.nextId = m.nextId)
    (houtline : m'.outline v = { m.outline v with
      queue := fun s' => Request.errands v (askedIn v.plan.topology.base? m'.journal)
        (m'.itemsAt s') })
    (hlength : ∀ s' n, w' = some (s', n) →
      (Function.update m.itemsAt s items s').length ≤ n) :
    m'.Outlined v w' asked
      { o with queue := Function.update o.queue s (Request.errands v asked items) } := by
  refine ⟨hregular, hnext ▸ h.unasked, hasked.trans h.asked, ?_, hitems ▸ hlength⟩
  rw [houtline, h.outline, hitems, hasked, h.asked, h.queue_update]

theorem finish (hw : ∀ n, w ≠ some (.finished, n)) {r : Request}
    (hr : r.kind.isWriteBack = false) :
    Outlined v w asked (o.push .finished (r.errand v asked))
      { m with finished := m.finished ++ [r.finish] } := by
  have hregular : Machine.Regular v.plan { m with finished := m.finished ++ [r.finish] } :=
    ⟨h.regular.length, h.regular.caches, h.regular.memory, h.regular.above⟩
  have hpush := h.with_items { m with finished := m.finished ++ [r.finish] } .finished
    (m.finished ++ [r.finish]) w hregular (by funext s; cases s <;> rfl) rfl rfl rfl fun s n hs => by
      rw [Function.update_of_ne]
      · exact h.length_le s n hs
      · rintro rfl
        exact hw n hs
  rw [Request.errands_append, Request.errands_cons_demand v asked [] (r := r.finish) hr] at hpush
  rw [Outline.push, h.queue_eq]
  exact hpush

theorem accepting (hw : ∀ n, w ≠ some (.memory, n)) (r : Request) :
    (m.accepting { r with readyAt := m.memory.cycle + m.memory.latency }).Outlined v w asked
      (if r.kind.isWriteBack then o else o.arrive .memory .memory (r.errand v asked)) := by
  have hregular : (m.accepting { r with
      readyAt := m.memory.cycle + m.memory.latency }).Regular v.plan :=
    ⟨h.regular.length, h.regular.caches, h.regular.memory.push rfl, h.regular.above⟩
  have hclock : o.clock .memory = m.memory.cycle := h.outline ▸ rfl
  have hlatency : o.latency .memory = m.memory.latency := h.outline ▸ rfl
  have hpush := h.with_items (m.accepting { r with readyAt := m.memory.cycle + m.memory.latency })
    .memory (m.itemsAt .memory ++ [{ r with readyAt := m.memory.cycle + m.memory.latency }]) w
    hregular (by funext s; cases s <;> rfl) (by rfl) rfl (by rfl) fun s n hs => by
      rw [Function.update_of_ne]
      · exact h.length_le s n hs
      · rintro rfl
        exact hw n hs
  rw [Request.errands_append, ← h.queue_eq, Outline.push_errands] at hpush
  rw [Outline.arrive, hclock, hlatency]
  exact hpush

end Outlined

end Machine

end CacheHierarchy
