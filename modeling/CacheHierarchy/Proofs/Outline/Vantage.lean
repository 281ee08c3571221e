import CacheHierarchy.Proofs.Execution.Actions
import CacheHierarchy.Proofs.Outline.Basic

/-!
# The outline of a machine

`m.outline v` is the outline of a machine as it is seen from `v`, which supplies what the machine
does not know: how requests are labelled, and the clock and the completions of the hierarchy.

A machine is `Regular` if its caches are wired as planned and its queues are in the order of time:
what joins a queue is ready no earlier than what is in it, and what stands in a send queue is ready
at once. So the head of a queue that is not ready has nothing ready behind it, and a write-back
never holds a demand request back.

`m.Outlined v w asked o` says that a regular machine has the outline `o`, and that a queue which
`w` watches has at most so many requests.
-/

namespace CacheHierarchy

variable {α : Type}

def Event.verdict? (base? : Option Nat) (id : Nat) : Event → Option Bool
  | .lookedUp i r hit _ => if base? = some i ∧ r.id = id then some hit else none
  | _ => none

/-- What the look-ups of an access at the base found, the latest one first. -/
def askedIn (base? : Option Nat) (journal : List Event) (id : Nat) : List Bool :=
  journal.filterMap (Event.verdict? base? id)

structure Vantage (α : Type) where
  plan : Plan
  label : Ticket → α
  now : Nat
  completions : List Completion

def Vantage.context (v : Vantage α) : Context := { now := v.now, completions := v.completions }

namespace Counters

/-- The counters that writing has no part in. -/
def bare (c : Counters) : Counters :=
  { accesses := c.accesses
    hits := c.hits
    misses := c.misses
    backInvalidations := c.backInvalidations }

@[simp] theorem bare_countLookup (c : Counters) (hit isWrite : Bool) :
    (c.countLookup hit isWrite).bare = c.bare.countLookup hit false := by
  simp [bare, countLookup]

@[simp] theorem bare_countWriteBack (c : Counters) : c.countWriteBack.bare = c.bare := rfl

@[simp] theorem bare_countBackInvalidation (c : Counters) (dirty : Bool) :
    (c.countBackInvalidation dirty).bare = c.bare.countBackInvalidation false := by
  simp [bare, countBackInvalidation]

end Counters

namespace Request

def errand (v : Vantage α) (asked : Nat → List Bool) (r : Request) : Errand α where
  label := v.label r.ticket
  line := v.plan.lines r.addr
  top := v.plan.topology.top r.kind.side
  issuedAt := r.issuedAt
  readyAt := r.readyAt
  isMiss := r.isMiss
  bypass := r.bypass
  asked := asked r.id

def errands (v : Vantage α) (asked : Nat → List Bool) (items : List Request) : List (Errand α) :=
  (items.filter fun r => !r.kind.isWriteBack).map (errand v asked)

section Errands

variable (v : Vantage α) (asked : Nat → List Bool) (items : List Request) {r : Request}

@[simp] theorem errands_nil : errands v asked [] = [] := rfl

theorem errands_cons_demand (h : r.kind.isWriteBack = false) :
    errands v asked (r :: items) = r.errand v asked :: errands v asked items := by
  simp [errands, h]

theorem errands_cons_writeBack (h : r.kind.isWriteBack = true) :
    errands v asked (r :: items) = errands v asked items := by
  simp [errands, h]

theorem errands_append (items' : List Request) :
    errands v asked (items ++ items') = errands v asked items ++ errands v asked items' := by
  simp [errands]

theorem errands_congr {asked' : Nat → List Bool}
    (h : ∀ r ∈ items, r.kind.isWriteBack = false → asked' r.id = asked r.id) :
    errands v asked' items = errands v asked items := by
  refine List.map_congr_left fun r hr => ?_
  rw [List.mem_filter, Bool.not_eq_true'] at hr
  rw [errand, errand, h r hr.1 hr.2]

theorem mem_errands {e : Errand α} : e ∈ errands v asked items ↔
    ∃ r ∈ items, r.kind.isWriteBack = false ∧ r.errand v asked = e := by
  simp [errands, and_assoc]

end Errands

end Request

def Completion.outcome (v : Vantage α) (asked : Nat → List Bool) (d : Completion) : Outcome α where
  label := v.label d.ticket
  top := v.plan.topology.top d.kind.side
  issuedAt := d.issuedAt
  completedAt := d.completedAt
  miss := d.miss
  asked := asked d.id

namespace GatedQueue

/-- What is in the queue is in the order of time and ready by the given cycle. -/
structure InOrder (limit : Nat) (q : GatedQueue Request) : Prop where
  sorted : q.items.Pairwise fun r r' => r.readyAt ≤ r'.readyAt
  le_limit : ∀ r ∈ q.items, r.readyAt ≤ limit

namespace InOrder

variable {limit : Nat} {q : GatedQueue Request}

theorem empty (limit : Nat) : InOrder limit {} := ⟨List.Pairwise.nil, by simp⟩

theorem mono (h : q.InOrder limit) {limit' : Nat} (hle : limit ≤ limit') : q.InOrder limit' :=
  ⟨h.sorted, fun r hr => (h.le_limit r hr).trans hle⟩

theorem push (h : q.InOrder limit) {r : Request} (hr : r.readyAt = limit) :
    (q.push r).InOrder limit := by
  constructor
  · rw [items_push, List.pairwise_append]
    refine ⟨h.sorted, List.pairwise_singleton _ _, fun r' hr' r'' hr'' => ?_⟩
    rw [List.mem_singleton.1 hr'', hr]
    exact h.le_limit r' hr'
  · simp only [items_push, List.mem_append, List.mem_singleton]
    rintro r' (hr' | rfl)
    · exact h.le_limit r' hr'
    · exact hr.le

theorem sublist (h : q.InOrder limit) {q' : GatedQueue Request}
    (hsub : q'.items.Sublist q.items) : q'.InOrder limit :=
  ⟨h.sorted.sublist hsub, fun r hr => h.le_limit r (hsub.subset hr)⟩

theorem map (h : q.InOrder limit) {f : Request → Request} (hf : ∀ r, (f r).readyAt = r.readyAt) :
    (q.map f).InOrder limit := by
  constructor
  · rw [items_map, List.pairwise_map]
    simpa only [hf] using h.sorted
  · simpa [hf] using h.le_limit

end InOrder

end GatedQueue

/-- A cache that is wired as planned and has its queues in order. -/
structure Cache.Regular (p : Plan) (i : Nat) (c : Cache) : Prop where
  geometry : c.tags.geometry = p.geometry i
  above : c.above = p.topology.above i
  below : c.below = p.topology.below i
  lookups : c.lookups.InOrder (c.cycle + c.latency)
  fills : c.fills.InOrder (c.cycle + c.latency)
  sends : ∀ r ∈ c.sends.items, r.readyAt ≤ c.cycle
  writeBacks : ∀ r ∈ c.writeBacks.items, r.kind.isWriteBack = true ∧ r.readyAt ≤ c.cycle

theorem Cache.Regular.line_eq {p : Plan} {i : Nat} {c : Cache} (h : c.Regular p i) (addr : Nat) :
    c.tags.geometry.lineOf addr = p.line i addr := by
  rw [h.geometry]
  rfl

namespace Machine

structure Regular (p : Plan) (m : Machine) : Prop where
  length : m.caches.length = p.topology.size
  caches : ∀ i (c : Cache), m.caches[i]? = some c → c.Regular p i
  memory : m.memory.queue.InOrder (m.memory.cycle + m.memory.latency)
  above : m.memory.above = p.topology.last?

theorem Regular.lt_size {p : Plan} {m : Machine} (h : m.Regular p) {i : Nat} {c : Cache}
    (hc : m.caches[i]? = some c) : i < p.topology.size :=
  h.length ▸ (List.getElem?_eq_some_iff.1 hc).1

def itemsAt (m : Machine) : Spot → List Request
  | .lookups i => m.view (fun c => c.lookups.items) [] i
  | .fills i => m.view (fun c => c.fills.items) [] i
  | .sends i => m.view (fun c => c.sends.items) [] i
  | .writeBacks i => m.view (fun c => c.writeBacks.items) [] i
  | .memory => m.memory.queue.items
  | .finished => m.finished

/-- The requests at the spots are those in traffic. -/
theorem mem_itemsAt {m : Machine} {s : Spot} {r : Request} :
    r ∈ m.itemsAt s ↔ (s, r) ∈ m.traffic := by
  constructor
  · intro h
    have hcache : ∀ {i} {f : Cache → List Request}, r ∈ m.view f [] i →
        ∃ c, m.caches[i]? = some c ∧ r ∈ f c := by
      intro i f hr
      unfold view at hr
      cases hc : m.caches[i]? with
      | none => simp [hc] at hr
      | some c => exact ⟨c, rfl, by simpa [hc] using hr⟩
    cases s with
    | memory => simp [traffic, show r ∈ m.memory.queue.items from h]
    | finished => simp [traffic, show r ∈ m.finished from h]
    | lookups i | fills i | sends i | writeBacks i =>
      obtain ⟨c, hc, hr⟩ := hcache h
      exact mem_traffic_of_cache hc ((mem_traffic c).2 (by simp [hr]))
  · intro h
    simp only [traffic, Multiset.mem_add, Multiset.mem_coe, List.mem_map, Prod.mk.injEq] at h
    rcases h with h | ⟨r', hr, rfl, rfl⟩ | ⟨r', hr, rfl, rfl⟩
    · obtain ⟨i, c, hc, h⟩ := exists_of_mem_queued h
      rw [Nat.zero_add, mem_traffic] at h
      rcases h with ⟨rfl, hr⟩ | ⟨rfl, hr⟩ | ⟨rfl, hr⟩ | ⟨rfl, hr⟩ <;>
        simpa [itemsAt, view_eq hc] using hr
    · exact hr
    · exact hr

def clockAt (m : Machine) : Site → Nat
  | .cache i => m.view Cache.cycle 0 i
  | .memory => m.memory.cycle

def latencyAt (m : Machine) : Site → Nat
  | .cache i => m.view Cache.latency 0 i
  | .memory => m.memory.latency

/-- The machine without what has to do with writing. -/
def outline (v : Vantage α) (m : Machine) : Outline α :=
  let asked := askedIn v.plan.topology.base? m.journal
  { queue := fun s => Request.errands v asked (m.itemsAt s)
    rows := m.view (fun c k => (c.tags.row k).clean) fun _ => .empty 0
    counters := m.view (fun c => c.tags.counters.bare) {}
    clock := m.clockAt
    latency := m.latencyAt
    reads := m.memory.reads
    now := v.now
    done := v.completions.map (Completion.outcome v asked)
    inFlight := m.outstanding.length }

/-- A regular machine has an outline. The queue that `w` names is no longer than it says. -/
structure Outlined (v : Vantage α) (w : Option (Spot × Nat)) (asked : Nat → List Bool)
    (o : Outline α) (m : Machine) : Prop where
  regular : m.Regular v.plan
  /-- Nothing is known of accesses that are still to come. -/
  unasked : ∀ id, m.nextId ≤ id → asked id = []
  asked : askedIn v.plan.topology.base? m.journal = asked
  outline : m.outline v = o
  length_le : ∀ s n, w = some (s, n) → (m.itemsAt s).length ≤ n

end Machine

end CacheHierarchy
