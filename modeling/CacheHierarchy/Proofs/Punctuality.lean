import CacheHierarchy.Proofs.Pace.Moments
import CacheHierarchy.Proofs.Pace.Schedules

/-!
# Punctuality

A gated queue looks at its head only, so a request that is ready could be held back by one that is
not. That never happens. Between two commands all clocks agree, the requests in a look-up queue, in a
fill queue and in memory's queue stand in the order in which they become ready, and none of them was
to leave before. Whatever stands in the other queues is ready.

So within a cycle, whenever a queue is looked at, the request that leaves it does so in the very cycle
from which on it is ready, and if none leaves then none that is left is ready.
-/

namespace CacheHierarchy

namespace GatedQueue

/-- The requests of a queue become ready in the order in which they stand, and none is overdue. -/
structure Punctual (now : Nat) (q : GatedQueue Request) : Prop where
  sorted : q.items.Pairwise fun r r' => r.readyAt ≤ r'.readyAt
  le_readyAt : ∀ r ∈ q.items, now ≤ r.readyAt

/-- A request leaves a queue in the cycle from which on it is ready, and if none leaves, no other that
is left is ready. -/
structure Prompt (now : Nat) (q : GatedQueue Request) : Prop where
  taken : ∀ r rest, q.popReady? now = some (r, rest) → r.readyAt = now
  left : q.popReady? now = none → ∀ r ∈ q.items, now < r.readyAt

def Ready (now : Nat) (q : GatedQueue Request) : Prop := ∀ r ∈ q.items, r.readyAt ≤ now

variable {now : Nat} {q : GatedQueue Request}

theorem Punctual.prompt (hq : q.Punctual now) : q.Prompt now where
  taken r rest hpop := by
    obtain ⟨hitems, hready⟩ := popReady?_eq_some_iff.1 hpop
    exact le_antisymm (Timed.isReady_iff.1 hready) (hq.le_readyAt r (hitems ▸ List.mem_cons_self))
  left := Machine.late_of_popReady? hq.sorted

variable {t : Timetable} {x : Phase} {s : Spot}

/-- A queue that keeps to a timetable is punctual until its stage is over. -/
theorem Paced.punctual (hq : q.Paced t x s) (hgate : s.isGate = true)
    (hstage : x.passed ≤ t.topology.stage s) : q.Punctual x.now where
  sorted := hq.sorted hgate
  le_readyAt r hr := by
    have hnext := (hq.admits r hr).next_le
    rw [Timetable.next, if_neg (Nat.not_lt.2 hstage), Spot.leavesAt, hgate] at hnext
    exact hnext

theorem Paced.ready (hq : q.Paced t x s) (hgate : s.isGate = false)
    (hclock : t.clock x s.site = now) : q.Ready now := fun r hr => by
  have hhorizon := (hq.admits r hr).le_horizon
  rw [Timetable.horizon, hclock, hgate] at hhorizon
  exact hhorizon

end GatedQueue

structure Cache.Punctual (now : Nat) (c : Cache) : Prop where
  cycle : c.cycle = now
  lookups : c.lookups.Punctual now
  fills : c.fills.Punctual now
  sends : c.sends.Ready now
  writeBacks : c.writeBacks.Ready now

namespace Hierarchy

/-- All clocks agree and no request is late. -/
structure Punctual (h : Hierarchy) : Prop where
  caches : ∀ c ∈ h.machine.caches, c.Punctual h.cycle
  memory : h.machine.memory.cycle = h.cycle
  queue : h.machine.memory.queue.Punctual h.cycle

/-- The queue that requests leave in a stage when they are ready, with the clock of its owner. -/
def gate? (h : Hierarchy) : Stage → Option (Nat × GatedQueue Request)
  | .fill i => h.machine.caches[i]?.map fun c => (c.cycle, c.fills)
  | .lookUp i => h.machine.caches[i]?.map fun c => (c.cycle, c.lookups)
  | .memory => some (h.machine.memory.cycle, h.machine.memory.queue)
  | _ => none

variable {t : Timetable} {x : Phase} {h : Hierarchy}

/-- Between two cycles a hierarchy that keeps to a timetable is punctual. -/
theorem Paced.punctual {accesses : Nat} (h' : h.Paced t 0 accesses) : h.Punctual := by
  have hclock (site : Site) : t.clock (h.phase 0) site = h.cycle :=
    congrArg (h.cycle + ·) (if_neg (Nat.not_lt_zero _))
  refine ⟨fun c hc => ?_, h'.machine.cycle.trans (hclock _), ?_⟩
  · obtain ⟨i, hi⟩ := List.mem_iff_getElem?.1 hc
    have hpaced := h'.machine.caches i c hi
    exact ⟨hpaced.cycle.trans (hclock _), hpaced.lookups.punctual rfl (Nat.zero_le _),
      hpaced.fills.punctual rfl (Nat.zero_le _), hpaced.sends.ready rfl (hclock _),
      hpaced.writeBacks.ready rfl (hclock _)⟩
  · exact h'.machine.queue.punctual rfl (Nat.zero_le _)

/-- A queue is punctual between any two requests that leave it in its stage. -/
theorem PacedPartway.punctual {stage : Stage} {s : Spot} (hs : stage.spot? = some s)
    (hgate : s.isGate = true) (hhas : t.topology.Has s) (hx : x.passed = t.topology.stage s)
    (h' : h.PacedPartway t x) :
    ∃ q, h.gate? stage = some (h.cycle, q) ∧ q.Punctual h.cycle := by
  obtain ⟨-, hcycle, n, hm⟩ := h'
  have hclock : t.clock (x.leaving n) s.site = x.now := t.clock_of_isGate hgate hx
  have hcache {i : Nat} (hi : i < t.topology.size) : ∃ c, h.machine.caches[i]? = some c :=
    ⟨_, List.getElem?_eq_getElem (hm.length.symm ▸ hi)⟩
  rw [hcycle]
  cases stage <;> cases hs
  case fill i =>
    obtain ⟨c, hc⟩ := hcache hhas
    have hpaced := hm.caches i c hc
    refine ⟨c.fills, ?_, hpaced.fills.punctual rfl hx.le⟩
    rw [gate?, hc, Option.map_some, hpaced.cycle.trans hclock]
  case lookUp i =>
    obtain ⟨c, hc⟩ := hcache hhas
    have hpaced := hm.caches i c hc
    refine ⟨c.lookups, ?_, hpaced.lookups.punctual rfl hx.le⟩
    rw [gate?, hc, Option.map_some, hpaced.cycle.trans hclock]
  case memory =>
    refine ⟨h.machine.memory.queue, ?_, hm.queue.punctual rfl hx.le⟩
    rw [gate?, hm.cycle.trans hclock]
  case send i => cases hgate

/-- Whatever well-formed configuration a hierarchy is built of, after every run all its clocks agree
and no request is late. And wherever the run goes on to in the next cycle between two requests of a
stage, the one that leaves next does so in the cycle from which on it is ready. -/
theorem run_is_punctual {c : HierarchyConfig} (hvalid : c.validate = .ok ()) (hsized : c.Sized)
    (commands : List Command) :
    ∃ start, ofConfig c = .ok start ∧
      Ends (fun _ h => h.Punctual)
        (fun fault s => fault = .sumOverflow ∧ s.Exhausted ∨
          ¬c.Aligned ∧ ∃ array addr, fault = .writeBackMissed array addr)
        (run commands start) ∧
      ∀ n stage s, (Stage.ofCaches c.topology.size ++ Stage.closing)[n]? = some stage →
        stage.spot? = some s → s.isGate = true → ∀ k,
          Ends (fun _ h => ∃ q, h.gate? stage = some (h.cycle, q) ∧
              q.Punctual h.cycle ∧ q.Prompt h.cycle)
            (fun fault s => fault = .sumOverflow ∧ s.Exhausted ∨
              ¬c.Aligned ∧ ∃ array addr, fault = .writeBackMissed array addr)
            (runWithin commands n k start) := by
  obtain ⟨start, hstart, hpaced, hcycle⟩ := exists_paced_start hvalid hsized commands.length
  have hsound := HierarchyConfig.sound_timetable (c := c) commands.length
  have hlast : start.cycle + commands.length ≤ (c.timetable commands.length).last := by
    rw [hcycle, Nat.zero_add]
    exact le_rfl
  obtain ⟨_, _, hstart', -, hrun⟩ := exists_safe_run hvalid hsized commands
  obtain rfl := Except.ok.inj (hstart'.symm.trans hstart)
  refine ⟨_, hstart, (hrun.meet (run_paces hsound hlast hpaced)).mono (fun _ h hh => ?_)
    fun _ _ hfails => hfails.1, fun n stage s hstage hs hgate k => ?_⟩
  · obtain ⟨-, accesses, hpaced⟩ := hh
    exact hpaced.punctual
  · obtain ⟨_, _, hstart', -, hstop⟩ := exists_safe_stop hvalid hsized commands (n + 1)
    obtain rfl := Except.ok.inj (hstart'.symm.trans hstart)
    refine ((runWithin_ends hstop k).meet (runWithin_pacedPartway hsound hlast hpaced hstage
      hs k)).mono (fun _ h hh => ?_) fun _ _ hfails => hfails.1
    obtain ⟨-, hhas, x, hx, hpartway⟩ := hh
    obtain ⟨q, hq, hpunctual⟩ := hpartway.punctual hs hgate hhas hx
    exact ⟨q, hq, hpunctual, hpunctual.prompt⟩

theorem run_is_punctual_narrow :
    HierarchyConfig.narrow.validate = .ok () ∧ HierarchyConfig.narrow.Sized ∧
      ∃ start, ofConfig .narrow = .ok start ∧
        Ends (fun _ h => h.Punctual)
          (fun fault s => fault = .sumOverflow ∧ s.Exhausted ∨
            ¬HierarchyConfig.narrow.Aligned ∧ ∃ array addr, fault = .writeBackMissed array addr)
          (run (.access 0 .write (by decide) rfl :: .access 64 .write (by decide) rfl ::
            List.replicate 9 .cycle) start) ∧
        Ends (fun _ h => ∃ q, h.gate? (.fill 2) = some (h.cycle, q) ∧
            q.Punctual h.cycle ∧ q.Prompt h.cycle)
          (fun fault s => fault = .sumOverflow ∧ s.Exhausted ∨
            ¬HierarchyConfig.narrow.Aligned ∧ ∃ array addr, fault = .writeBackMissed array addr)
          (runWithin (.access 0 .write (by decide) rfl :: .access 64 .write (by decide) rfl ::
            List.replicate 9 .cycle) 11 1 start) := by
  obtain ⟨start, hstart, hrun, hwithin⟩ := run_is_punctual (c := .narrow) rfl (by decide)
    (.access 0 .write (by decide) rfl :: .access 64 .write (by decide) rfl ::
      List.replicate 9 .cycle)
  exact ⟨rfl, by decide, start, hstart, hrun, hwithin 11 (.fill 2) (.fills 2) rfl rfl rfl 1⟩

end Hierarchy

end CacheHierarchy
