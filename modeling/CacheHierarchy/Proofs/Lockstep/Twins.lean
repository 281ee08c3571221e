import CacheHierarchy.Proofs.Execution.Start
import CacheHierarchy.Proofs.Lockstep.Basic

/-!
# Twin machines

A machine with a split first level of which only one side is used has a twin without the split: the
cache on the side in use stands alone in the first level. `w.place j` is the position in the split
machine of cache `j` of its twin, and `w.idle` that of the cache that is left over.

Twin caches differ in their name and wiring only, and outstanding accesses in the position of the
cache in which they missed. What makes the wiring of the split machine do the same as that of its
twin is that every request under way is a write-back or belongs to the side in use, and that the
cache left over is empty.
-/

namespace CacheHierarchy

namespace Side

def top : Side → Nat
  | instruction => 0
  | data => 1

def idle : Side → Nat
  | instruction => 1
  | data => 0

/-- Where cache `j` of two levels stands if the first level is split. -/
def place (w : Side) : Nat → Nat
  | 0 => w.top
  | _ => 2

variable {w : Side} {i j : Nat}

theorem place_ne_idle : w.place j ≠ w.idle := by
  cases w <;> cases j <;> simp [place, top, idle]

theorem idle_ne_base : w.idle ≠ 2 := by
  cases w <;> decide

theorem above_place_zero : Topology.splitL1.above (w.place 0) = .core := by
  cases w <;> rfl

theorem below_place_zero : Topology.splitL1.below (w.place 0) = .cache (w.place 1) := by
  cases w <;> rfl

theorem place_inj (hi : i < 2) (hj : j < 2) : w.place i = w.place j ↔ i = j := by
  have hcases : ∀ {k : Nat}, k < 2 → k = 0 ∨ k = 1 := by omega
  rcases hcases hi with rfl | rfl <;> rcases hcases hj with rfl | rfl <;> cases w <;> decide

end Side

/-! ### Tag arrays -/

def TagArray.named (t : TagArray) (name : String) : TagArray := { t with name }

namespace TagArray

variable (t : TagArray) (name : String) (addr : Nat)

/-! A name shows in faults only. -/

theorem agree_lookup (kind : AccessKind) :
    Agree (fun x y => y = (x.1, x.2.named name)) (t.lookup addr kind)
      ((t.named name).lookup addr kind) := by
  have hdemand : Agree (fun x y => y = (x.1, x.2.named name)) (t.lookupDemand addr kind)
      ((t.named name).lookupDemand addr kind) := by
    refine Agree.map_same (x := t.locate addr) fun place => ?_
    cases place.way? <;> rfl
  cases kind with
  | check => exact Agree.map_same (x := t.contains addr) fun _ => rfl
  | writeBack => trivial
  | read => exact hdemand
  | write => exact hdemand
  | instFetch => exact hdemand

theorem agree_absorb :
    Agree (fun x y => y = x.named name) (t.absorb addr) ((t.named name).absorb addr) := by
  refine Agree.bind_same (x := t.locate addr) fun place => ?_
  cases place.way? with
  | none => trivial
  | some way => rfl

theorem agree_install (kind : AccessKind) :
    Agree (fun x y => y = x.named name) (t.install addr kind)
      ((t.named name).install addr kind) := by
  refine Agree.bind_same (x := t.locate addr) fun place => ?_
  cases place.way? with
  | some way => trivial
  | none => exact Agree.bind_same (x := t.evictionOf place.set _) fun _ => rfl

theorem agree_fill (kind : AccessKind) :
    Agree (fun x y => y = (x.1, x.2.named name)) (t.fill addr kind)
      ((t.named name).fill addr kind) := by
  cases kind with
  | check => trivial
  | writeBack => exact (t.agree_absorb name addr).map fun _ _ h => h ▸ rfl
  | read => exact (t.agree_install name addr .read).map fun _ _ h => h ▸ rfl
  | write => exact (t.agree_install name addr .write).map fun _ _ h => h ▸ rfl
  | instFetch => exact (t.agree_install name addr .instFetch).map fun _ _ h => h ▸ rfl

theorem agree_backInvalidate :
    Agree (fun x y => y = (x.1, x.2.named name)) (t.backInvalidate addr)
      ((t.named name).backInvalidate addr) := by
  refine Agree.map (S := fun x y => y = (x.1, x.2.named name)) ?_ fun _ _ h => h ▸ rfl
  refine Agree.bind_same (x := t.locate addr) fun place => ?_
  cases place.way? with
  | none => trivial
  | some way => rfl

end TagArray

/-! ### Outstanding accesses -/

def OutstandingAccess.moved (k : Nat) (e : OutstandingAccess) : OutstandingAccess :=
  { e with mark := e.mark.map fun mark => { mark with owner := mark.owner + k } }

/-- The table with every cache in which an access missed moved `k` positions on. -/
def Outstanding.moved (k : Nat) (t : Outstanding) : Outstanding :=
  ⟨t.entries.map (OutstandingAccess.moved k)⟩

namespace Outstanding

variable (t : Outstanding) (k : Nat)

theorem kindOf?_moved (id : Nat) : (t.moved k).kindOf? id = t.kindOf? id := by
  simp only [kindOf?, get?, moved, List.find?_map, Option.map_map]
  rfl

theorem agree_insert (id addr : Nat) (kind : AccessKind) :
    Agree (fun x y => x = y.moved k) ((t.moved k).insert id addr kind)
      (t.insert id addr kind) := by
  have hsame : (t.moved k).contains id = t.contains id := by
    simp only [contains, moved, List.any_map]
    rfl
  unfold insert
  rw [hsame]
  split
  · trivial
  · change _ = _
    rw [moved, moved, List.map_append]
    rfl

theorem modifyFirst_map {f : OutstandingAccess → OutstandingAccess} {p : OutstandingAccess → Bool}
    {g g' : OutstandingAccess → OutstandingAccess} (hp : ∀ e, p (f e) = p e)
    (hg : ∀ e, f (g e) = g' (f e)) (l : List OutstandingAccess) :
    modifyFirst p g' (l.map f) = (modifyFirst p g l).map f := by
  induction l with
  | nil => rfl
  | cons e rest ih =>
    simp only [modifyFirst, List.map_cons, hp]
    split
    · rw [List.map_cons, hg]
    · rw [List.map_cons, ih]

theorem markMiss_moved (id owner line : Nat) :
    (t.moved k).markMiss id (owner + k) line = (t.markMiss id owner line).moved k := by
  simp only [markMiss, moved, mk.injEq]
  exact modifyFirst_map (fun _ => by rfl) (fun _ => by rfl) t.entries

theorem findMiss?_moved (owner line : Nat) :
    (t.moved k).findMiss? (owner + k) line =
      (t.findMiss? owner line).map (OutstandingAccess.moved k) := by
  rw [findMiss?, findMiss?, moved, List.find?_map]
  congr 2
  funext e
  obtain ⟨id, addr, kind, mark⟩ := e
  cases mark with
  | none => rfl
  | some mark =>
    rw [Bool.eq_iff_iff]
    cases mark
    simp [OutstandingAccess.moved]

theorem merge?_moved (owner line : Nat) (kind : AccessKind) :
    (t.moved k).merge? (owner + k) line kind =
      (t.merge? owner line kind).map fun (into, t) => (into, t.moved k) := by
  unfold merge?
  rw [findMiss?_moved, Option.map_map, Option.map_map]
  congr 1
  funext miss
  simp only [Function.comp_apply, OutstandingAccess.moved]
  split
  · simp only [moved, Prod.mk.injEq, mk.injEq, true_and]
    exact modifyFirst_map (fun _ => by rfl) (fun _ => by rfl) t.entries
  · rfl

theorem remove?_moved (id : Nat) :
    (t.moved k).remove? id = (t.remove? id).map fun (e, t) => (e.moved k, t.moved k) := by
  simp only [remove?, get?, moved, List.find?_map, Option.map_map, List.eraseP_map]
  rfl

end Outstanding

/-! ### Caches -/

/-- A request that belongs to the side in use, or is a write-back. -/
def Request.On (w : Side) (r : Request) : Prop := r.kind.isWriteBack = true ∨ r.kind.side = w

def GatedQueue.On (w : Side) (q : GatedQueue Request) : Prop := ∀ r ∈ q.items, r.On w

namespace GatedQueue.On

variable {w : Side} {q : GatedQueue Request}

theorem empty : On w {} := fun _ hr => absurd hr List.not_mem_nil

theorem append (h : q.On w) {items : List Request} (hitems : ∀ r ∈ items, r.On w) :
    On w (q.append items) :=
  fun r hr => (List.mem_append.1 hr).elim (h r) (hitems r)

theorem push (h : q.On w) {r : Request} (hr : r.On w) : On w (q.push r) :=
  h.append fun _ hmem => List.mem_singleton.1 hmem ▸ hr

theorem takeWhere (h : q.On w) (p : Request → Bool) :
    (∀ r ∈ (q.takeWhere p).1, r.On w) ∧ On w (q.takeWhere p).2 :=
  ⟨fun r hr => h r (List.mem_filter.1 hr).1, fun r hr => h r (List.mem_filter.1 hr).1⟩

theorem map (h : q.On w) {f : Request → Request} (hf : ∀ r, (f r).kind = r.kind) :
    On w (q.map f) := by
  intro r hr
  obtain ⟨r', hr', rfl⟩ := List.mem_map.1 hr
  rw [Request.On, hf]
  exact h r' hr'

theorem popReady? (h : q.On w) {now : Nat} {r : Request} {rest : GatedQueue Request}
    (hpop : q.popReady? now = some (r, rest)) : r.On w ∧ On w rest := by
  have hitems := (GatedQueue.popReady?_eq_some_iff.1 hpop).1
  exact ⟨h r (by rw [hitems]; exact List.mem_cons_self),
    fun r' hr' => h r' (by rw [hitems]; exact List.mem_cons_of_mem _ hr')⟩

end GatedQueue.On

namespace Cache

/-- Cache `j` of two levels where the first one is not split. -/
def recast (c : Cache) (j : Nat) (name : String) : Cache :=
  { c with
    tags := c.tags.named name
    above := Topology.multiLevel.above j
    below := Topology.multiLevel.below j
    side := none }

/-- A cache is wired as cache `j` of the twin is to be, and serves one side only. -/
structure Serves (w : Side) (j : Nat) (c : Cache) : Prop where
  above : c.above = Topology.splitL1.above (w.place j)
  below : c.below = Topology.splitL1.below (w.place j)
  lookups : c.lookups.On w
  fills : c.fills.On w
  sends : c.sends.On w
  writeBacks : c.writeBacks.On w

/-- The queues and the wiring stay as they are. -/
theorem Serves.update {w : Side} {j : Nat} {c : Cache} (h : c.Serves w j) (tags : TagArray)
    (cycle : Nat) (expected : WriteBackLedger) :
    Serves w j { c with tags, cycle, expected } :=
  ⟨h.above, h.below, h.lookups, h.fills, h.sends, h.writeBacks⟩

/-- A cache in which nothing but time has passed. -/
structure Idle (c : Cache) : Prop where
  span : c.tags.geometry.numSets * c.tags.geometry.lineSize < wordLimit
  tags : c.tags = TagArray.empty c.tags.name c.tags.geometry
  lookups : c.lookups = {}
  fills : c.fills = {}
  sends : c.sends = {}
  writeBacks : c.writeBacks = {}
  expected : c.expected = {}

theorem Idle.line?_eq {c : Cache} (h : c.Idle) (addr : Nat) : c.tags.line? addr = .ok none := by
  have hsound : (TagArray.empty c.tags.name c.tags.geometry).Sound := TagArray.empty_sound h.span
  rw [h.tags, hsound.line?_eq, TagArray.lines_empty]
  rfl

theorem Idle.awaits_eq {c : Cache} (h : c.Idle) (addr : Nat) : c.awaits addr = false := by
  rw [awaits, h.fills]
  rfl

end Cache

/-! ### Machines -/

/-- A machine with a split first level of which one side is in use, and its twin. -/
structure Machine.Twins (w : Side) (m m' : Machine) : Prop where
  length : m.caches.length = 3
  length' : m'.caches.length = 2
  cache : ∀ j < 2, ∃ c name, m.caches[w.place j]? = some c ∧
    m'.caches[j]? = some (c.recast j name) ∧ c.Serves w j
  idle : ∃ d, m.caches[w.idle]? = some d ∧ d.Idle
  memory : m'.memory = { m.memory with above := some 1 }
  above : m.memory.above = some 2
  queue : m.memory.queue.On w
  outstanding : m.outstanding = m'.outstanding.moved w.top
  finished : m'.finished = m.finished
  nextId : m'.nextId = m.nextId

namespace Machine.Twins

variable {w : Side} {m m' : Machine} {j : Nat} {c d : Cache}

theorem put (h : m.Twins w m') (hj : j < 2) (hc : c.Serves w j) (name : String) :
    (m.put (w.place j) c).Twins w (m'.put j (c.recast j name)) where
  length := (List.length_set ..).trans h.length
  length' := (List.length_set ..).trans h.length'
  cache i hi := by
    obtain ⟨d, other, hd, hd', hserves⟩ := h.cache i hi
    by_cases heq : i = j
    · subst heq
      exact ⟨c, name, caches_put_self hd c, caches_put_self hd' _, hc⟩
    · rw [caches_put_ne _ heq, caches_put_ne _ fun hplace => heq ((Side.place_inj hi hj).1 hplace)]
      exact ⟨d, other, hd, hd', hserves⟩
  idle := by
    rw [caches_put_ne _ Side.place_ne_idle.symm]
    exact h.idle
  memory := h.memory
  above := h.above
  queue := h.queue
  outstanding := h.outstanding
  finished := h.finished
  nextId := h.nextId

theorem put_idle (h : m.Twins w m') (hd : d.Idle) : (m.put w.idle d).Twins w m' where
  length := (List.length_set ..).trans h.length
  length' := h.length'
  cache i hi := by
    rw [caches_put_ne _ Side.place_ne_idle]
    exact h.cache i hi
  idle := by
    obtain ⟨d', hd', -⟩ := h.idle
    exact ⟨d, caches_put_self hd' d, hd⟩
  memory := h.memory
  above := h.above
  queue := h.queue
  outstanding := h.outstanding
  finished := h.finished
  nextId := h.nextId

theorem remember (h : m.Twins w m') (memory : Memory) (habove : memory.above = some 2)
    (hqueue : memory.queue.On w) :
    Machine.Twins w { m with memory } { m' with memory := { memory with above := some 1 } } :=
  { h with memory := rfl, above := habove, queue := hqueue }

theorem noted (h : m.Twins w m') (event event' : Event) :
    (m.noted event).Twins w (m'.noted event') := { h with }

end Machine.Twins

end CacheHierarchy
