import CacheHierarchy.Proofs.Outline.Stages
import CacheHierarchy.Proofs.Overview.Budget

/-!
# Timetables

A timetable says when the requests of a run leave the spots on their way at the latest: an access so
many cycles after its issue, a write-back in a fixed cycle. `t.Sound` lists what the timetable of a
topology has to allow for: whoever is handed a request takes his latency, one who has had his turn a
cycle more, and what a fill displaces is written back from the next cycle on.

`m.Paced t x` says that a machine keeps to a timetable at a moment `x` within a cycle. A cycle is
cut into stages, one for each queue and one for each clock; what is in a queue whose stage is over
can leave in the next cycle at the earliest, any other in this one. As a request that can leave in a
cycle does so, none is ever late. A machine that keeps to a timetable has clocks that show the cycle
or the next one, whatever fault an action may stop with.
-/

namespace CacheHierarchy

namespace Topology

def stage (t : Topology) : Spot → Nat
  | .writeBacks i => 5 * i
  | .fills i => 5 * i + 1
  | .sends i => 5 * i + 2
  | .lookups i => 5 * i + 3
  | .memory => 5 * t.size
  | .finished => 5 * t.size + 2

def clockStage (t : Topology) : Site → Nat
  | .cache i => 5 * i + 4
  | .memory => 5 * t.size + 1

end Topology

namespace Spot

/-- The component whose clock says whether a request at a spot is ready. -/
def site : Spot → Site
  | lookups i => .cache i
  | fills i => .cache i
  | sends i => .cache i
  | writeBacks i => .cache i
  | memory => .memory
  | finished => .memory

def isGate : Spot → Bool
  | lookups _ => true
  | fills _ => true
  | memory => true
  | _ => false

/-- Only write-backs are made where they are released, and none is looked up. -/
def Carries : Spot → Request → Prop
  | lookups _, r => r.kind.isWriteBack = false
  | writeBacks _, r => r.kind.isWriteBack = true
  | _, _ => True

/-- The cycle in which a request leaves a spot. What is sent is ready in the cycle before. -/
def leavesAt (s : Spot) (r : Request) : Nat := r.readyAt + if s.isGate then 0 else 1

end Spot

/-- When requests leave the spots on their way at the latest. -/
structure Timetable where
  topology : Topology
  latency : Site → Nat
  /-- The cycle in which the last access is issued. -/
  last : Nat
  /-- How long after its issue an access leaves a spot. -/
  travel : Spot → Nat
  /-- The cycle in which a write-back leaves a spot. -/
  late : Spot → Nat

structure Census where
  outstanding : Nat
  done : Nat

def Census.accesses (n : Census) : Nat := n.outstanding + n.done

def Machine.census (m : Machine) : Census where
  outstanding := m.outstanding.length
  done := m.journal.countP Event.isRetired

structure Phase where
  now : Nat
  /-- The number of stages of the cycle that are over. -/
  passed : Nat := 0
  /-- At most so many requests are left in the queue whose stage it is. -/
  left : Option Nat := none
  census : Census

namespace Timetable

/-- The cycle in which a request leaves a spot at the latest. -/
def due (t : Timetable) (s : Spot) (r : Request) : Nat :=
  if r.kind.isWriteBack then t.late s else r.issuedAt + t.travel s

theorem due_demand {t : Timetable} {s : Spot} {r : Request} (h : r.kind.isWriteBack = false) :
    t.due s r = r.issuedAt + t.travel s := by
  rw [due, h, if_neg Bool.false_ne_true]

theorem due_writeBack {t : Timetable} {s : Spot} {r : Request} (h : r.kind.isWriteBack = true) :
    t.due s r = t.late s := by
  rw [due, h, if_pos rfl]

/-- What a timetable has to allow for. -/
structure Sound (t : Timetable) : Prop where
  enter : ∀ kind i, t.topology.entryFor? kind = some i →
    t.latency (.cache i) ≤ t.travel (.lookups i)
  enterMemory : t.topology.last? = none → t.latency .memory ≤ t.travel .memory
  /-- A request that misses is sent in the next cycle. -/
  miss : ∀ i, t.travel (.lookups i) + 1 ≤ t.travel (.sends i)
  leave : ∀ i, i < t.topology.size → t.topology.below i = .memory →
    t.travel (.sends i) + t.latency .memory ≤ t.travel .memory ∧
      t.late (.sends i) + t.latency .memory ≤ t.late .memory
  down : ∀ i b, i < t.topology.size → t.topology.below i = .cache b →
    t.travel (.sends i) + t.latency (.cache b) ≤ t.travel (.lookups b) ∧
      t.late (.sends i) + t.latency (.cache b) ≤ t.late (.fills b)
  read : ∀ i, t.topology.last? = some i →
    t.travel .memory + 1 + t.latency (.cache i) ≤ t.travel (.fills i)
  up : ∀ b i, t.topology.base? = some b → i ∈ t.topology.tops →
    t.travel (.lookups b) + 1 + t.latency (.cache i) ≤ t.travel (.fills i) ∧
      t.travel (.fills b) + 1 + t.latency (.cache i) ≤ t.travel (.fills i)
  /-- What is displaced is released in the next cycle. -/
  displace : ∀ i, i < t.topology.size → t.last + t.travel (.fills i) + 1 ≤ t.late (.writeBacks i)
  release : ∀ i, t.late (.writeBacks i) ≤ t.late (.sends i)
  /-- A dirty copy that is owed goes to memory at once. -/
  straight : ∀ i, i < t.topology.size →
    t.last + t.travel (.fills i) + t.latency .memory ≤ t.late .memory
  hit : ∀ i, i ∈ t.topology.tops → t.travel (.lookups i) ≤ t.travel .finished
  filled : ∀ i, i ∈ t.topology.tops → t.travel (.fills i) ≤ t.travel .finished
  answered : t.topology.last? = none → t.travel .memory ≤ t.travel .finished

/-- The cycle in which a request can leave a spot at the earliest. -/
def next (t : Timetable) (x : Phase) (s : Spot) : Nat :=
  x.now + if t.topology.stage s < x.passed then 1 else 0

def clock (t : Timetable) (x : Phase) (site : Site) : Nat :=
  x.now + if t.topology.clockStage site < x.passed then 1 else 0

theorem clock_le (t : Timetable) (x : Phase) (site : Site) : t.clock x site ≤ x.now + 1 := by
  unfold clock
  split <;> omega

theorem clock_of_isGate (t : Timetable) {x : Phase} {s : Spot} (hgate : s.isGate = true)
    (hstage : x.passed = t.topology.stage s) : t.clock x s.site = x.now := by
  rw [clock, if_neg, Nat.add_zero]
  cases s <;> cases hgate <;> simp only [hstage, Topology.stage, Topology.clockStage, Spot.site] <;>
    omega

/-- From when on a request is ready that comes to a spot at the moment. -/
def horizon (t : Timetable) (x : Phase) (s : Spot) : Nat :=
  t.clock x s.site + if s.isGate then t.latency s.site else 0

/-- A request at a spot is neither too early nor late. -/
structure Admits (t : Timetable) (x : Phase) (s : Spot) (r : Request) : Prop where
  next_le : t.next x s ≤ s.leavesAt r
  le_due : s.leavesAt r ≤ t.due s r
  le_horizon : r.readyAt ≤ t.horizon x s
  issued : r.kind.isWriteBack = false → r.issuedAt ≤ t.last
  carries : s.Carries r

end Timetable

variable {t : Timetable} {x y : Phase} {s : Spot} {r : Request} {i : Nat}

namespace GatedQueue

/-- The requests in a queue keep to a timetable. -/
structure Paced (t : Timetable) (x : Phase) (s : Spot) (q : GatedQueue Request) : Prop where
  admits : ∀ r ∈ q.items, t.Admits x s r
  sorted : s.isGate = true → q.items.Pairwise fun r r' => r.readyAt ≤ r'.readyAt
  left : ∀ n, x.left = some n → t.topology.stage s = x.passed → q.length ≤ n

namespace Paced

variable {q q' : GatedQueue Request}

theorem empty : Paced t x s {} :=
  ⟨fun _ hr => absurd hr List.not_mem_nil, fun _ => List.Pairwise.nil, fun _ _ _ => Nat.zero_le _⟩

theorem sublist (h : q.Paced t x s) (hsub : q'.items.Sublist q.items) : q'.Paced t x s :=
  ⟨fun r hr => h.admits r (hsub.subset hr), fun hs => (h.sorted hs).sublist hsub,
    fun n hn hstage => hsub.length_le.trans (h.left n hn hstage)⟩

theorem push (h : q.Paced t x s) (hr : t.Admits x s r)
    (hready : s.isGate = true → r.readyAt = t.horizon x s)
    (hstage : x.left = none ∨ t.topology.stage s ≠ x.passed) : (q.push r).Paced t x s := by
  refine ⟨?_, fun hs => ?_, fun n hn hover => ?_⟩
  · simp only [items_push, List.mem_append, List.mem_singleton]
    rintro r' (hr' | rfl)
    · exact h.admits r' hr'
    · exact hr
  · rw [items_push, List.pairwise_append]
    refine ⟨h.sorted hs, List.pairwise_singleton _ _, fun r' hr' r'' hr'' => ?_⟩
    rw [List.mem_singleton.1 hr'', hready hs]
    exact (h.admits r' hr').le_horizon
  · rcases hstage with hnone | hne
    · rw [hnone] at hn
      cases hn
    · exact absurd hover hne

theorem map (h : q.Paced t x s) {f : Request → Request}
    (hf : ∀ r, f r = { r with bypass := (f r).bypass }) : (q.map f).Paced t x s := by
  have hready : ∀ r, (f r).readyAt = r.readyAt := fun r => by rw [hf]
  refine ⟨fun r hr => ?_, fun hs => ?_, fun n hn hstage => ?_⟩
  · obtain ⟨r', hr', rfl⟩ := List.mem_map.1 hr
    obtain ⟨hnext, hdue, hhorizon, hissued, hcarries⟩ := h.admits r' hr'
    rw [hf]
    refine ⟨hnext, hdue, hhorizon, hissued, ?_⟩
    cases s <;> exact hcarries
  · rw [items_map, List.pairwise_map]
    simpa only [hready] using h.sorted hs
  · rw [length_map]
    exact h.left n hn hstage

end Paced

end GatedQueue

structure Cache.Paced (t : Timetable) (x : Phase) (i : Nat) (c : Cache) : Prop where
  above : c.above = t.topology.above i
  below : c.below = t.topology.below i
  latency : c.latency = t.latency (.cache i)
  cycle : c.cycle = t.clock x (.cache i)
  lookups : c.lookups.Paced t x (.lookups i)
  fills : c.fills.Paced t x (.fills i)
  sends : c.sends.Paced t x (.sends i)
  writeBacks : c.writeBacks.Paced t x (.writeBacks i)

structure Machine.Paced (t : Timetable) (x : Phase) (m : Machine) : Prop where
  length : m.caches.length = t.topology.size
  caches : ∀ i (c : Cache), m.caches[i]? = some c → c.Paced t x i
  above : m.memory.above = t.topology.last?
  latency : m.memory.latency = t.latency .memory
  cycle : m.memory.cycle = t.clock x .memory
  queue : m.memory.queue.Paced t x .memory
  finished : ∀ r ∈ m.finished, x.now ≤ r.issuedAt + t.travel .finished
  census : m.census = x.census

def Machine.PacedIn (t : Timetable) (now accesses : Nat) (m : Machine) : Prop :=
  ∃ x : Phase, x.now = now ∧ x.census.accesses ≤ accesses ∧ m.Paced t x

abbrev Paces {α : Type} (t : Timetable) (x : Phase) (Q : α → Machine → Prop)
    (result : EStateM.Result Fault Machine α) : Prop :=
  Ends Q (fun _ => Machine.PacedIn t x.now x.census.accesses) result

abbrev KeepsPace (t : Timetable) (x : Phase) (result : EStateM.Result Fault Machine Unit) : Prop :=
  Paces t x (fun _ => Machine.Paced t x) result

namespace Machine.Paced

variable {m : Machine} {c : Cache} (h : m.Paced t x)

include h

theorem pacedIn : m.PacedIn t x.now x.census.accesses := ⟨x, rfl, le_rfl, h⟩

theorem lt_size (hc : m.caches[i]? = some c) : i < t.topology.size :=
  h.length ▸ (List.getElem?_eq_some_iff.1 hc).1

theorem put (hc : c.Paced t x i) : (m.put i c).Paced t x where
  length := List.length_set.trans h.length
  caches j d hd := by
    by_cases hj : j = i
    · subst hj
      have hlt := (List.getElem?_eq_some_iff.1 hd).1
      rw [Machine.put, List.length_set] at hlt
      rw [Machine.put, List.getElem?_set_self hlt] at hd
      cases hd
      exact hc
    · rw [caches_put_ne c hj] at hd
      exact h.caches j d hd
  above := h.above
  latency := h.latency
  cycle := h.cycle
  queue := h.queue
  finished := h.finished
  census := h.census

theorem noted {event : Event} (hevent : event.isRetired = false) : (m.noted event).Paced t x := by
  have hcensus : (m.noted event).census = m.census := by
    refine congrArg (Census.mk m.outstanding.length) (List.countP_cons_of_neg ?_)
    rw [hevent]
    exact Bool.false_ne_true
  exact { h with census := hcensus.trans h.census }

theorem remember {outstanding : Outstanding} (hlength : outstanding.length = m.outstanding.length) :
    Paced t x { m with outstanding } := by
  have hcensus : Machine.census { m with outstanding } = m.census :=
    congrArg (Census.mk · (m.journal.countP Event.isRetired)) hlength
  exact { h with census := hcensus.trans h.census }

theorem accepting (hr : t.Admits x .memory r)
    (hready : r.readyAt = t.clock x .memory + t.latency .memory)
    (hstage : x.left = none ∨ t.topology.stage .memory ≠ x.passed) : (m.accepting r).Paced t x := by
  have hqueued : Paced t x { m with
      memory := { m.memory with queue := m.memory.queue.push r } } :=
    { h with queue := h.queue.push hr (fun _ => hready) hstage }
  exact hqueued.noted rfl

end Machine.Paced

namespace Timetable

theorem admits_gate (hgate : s.isGate = true)
    (hstage : t.topology.stage s < x.passed → t.topology.clockStage s.site < x.passed)
    (hdue : t.clock x s.site + t.latency s.site ≤ t.due s r)
    (hissued : r.kind.isWriteBack = false → r.issuedAt ≤ t.last) (hcarries : s.Carries r) :
    t.Admits x s { r with readyAt := t.clock x s.site + t.latency s.site } := by
  refine ⟨?_, ?_, ?_, hissued, ?_⟩
  · simp only [next, clock, Spot.leavesAt, hgate, if_true]
    split <;> split <;> omega
  · simp only [Spot.leavesAt, hgate, if_true, Nat.add_zero]
    exact hdue
  · simp only [horizon, hgate, if_true, le_refl]
  · cases s <;> exact hcarries

structure Handles (t : Timetable) (x : Phase) (s : Spot) (r : Request) : Prop where
  admits : t.Admits x s r
  stage : x.passed = t.topology.stage s
  ready : r.readyAt ≤ x.now

namespace Handles

variable (h : t.Handles x s r)

include h

theorem now_le_leavesAt : x.now ≤ s.leavesAt r := by
  have hnext := h.admits.next_le
  rw [next] at hnext
  omega

theorem now_le_due : x.now ≤ t.due s r := h.now_le_leavesAt.trans h.admits.le_due

end Handles

structure Turn (t : Timetable) (x : Phase) (i : Nat) : Prop where
  lt_size : i < t.topology.size
  begun : 5 * i ≤ x.passed
  not_over : x.passed < 5 * i + 5

namespace Turn

variable (h : t.Turn x i)

include h

theorem clock_self : t.clock x (.cache i) = x.now := by
  have hnot := h.not_over
  rw [clock, if_neg, Nat.add_zero]
  simp only [Topology.clockStage]
  omega

theorem clock_of_lt {j : Nat} (hj : j < i) : t.clock x (.cache j) = x.now + 1 := by
  have hbegun := h.begun
  rw [clock, if_pos]
  simp only [Topology.clockStage]
  omega

theorem clock_of_gt {j : Nat} (hj : i < j) : t.clock x (.cache j) = x.now := by
  have hnot := h.not_over
  rw [clock, if_neg, Nat.add_zero]
  simp only [Topology.clockStage]
  omega

theorem clock_memory : t.clock x .memory = x.now := by
  have hnot := h.not_over
  have hlt := h.lt_size
  rw [clock, if_neg, Nat.add_zero]
  simp only [Topology.clockStage]
  omega

/-- Other caches have had their whole turn or nothing of it. -/
theorem stage_lookups {j : Nat} (hj : j ≠ i) :
    t.topology.stage (.lookups j) ≠ x.passed ∧
      (t.topology.stage (.lookups j) < x.passed → t.topology.clockStage (.cache j) < x.passed) := by
  have hbegun := h.begun
  have hnot := h.not_over
  simp only [Topology.stage, Topology.clockStage]
  omega

theorem stage_fills {j : Nat} (hj : j ≠ i) :
    t.topology.stage (.fills j) ≠ x.passed ∧
      (t.topology.stage (.fills j) < x.passed → t.topology.clockStage (.cache j) < x.passed) := by
  have hbegun := h.begun
  have hnot := h.not_over
  simp only [Topology.stage, Topology.clockStage]
  omega

theorem over_lt_memory : x.passed < t.topology.stage .memory := by
  have hnot := h.not_over
  have hlt := h.lt_size
  simp only [Topology.stage]
  omega

theorem admits_memory (hdue : x.now + t.latency .memory ≤ t.due .memory r)
    (hissued : r.kind.isWriteBack = false → r.issuedAt ≤ t.last) :
    t.Admits x .memory { r with readyAt := t.clock x .memory + t.latency .memory } :=
  t.admits_gate (s := .memory) rfl (fun hlt => absurd hlt (Nat.lt_asymm h.over_lt_memory))
    (h.clock_memory ▸ hdue) hissued trivial

end Turn

structure Filling (t : Timetable) (x : Phase) (i : Nat) : Prop where
  turn : t.Turn x i
  stage : x.passed = t.topology.stage (.fills i)
  now_le : x.now ≤ t.last + t.travel (.fills i)

end Timetable

end CacheHierarchy
