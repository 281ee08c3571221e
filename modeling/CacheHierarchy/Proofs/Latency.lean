import CacheHierarchy.Proofs.Outline.Runs
import CacheHierarchy.Proofs.Outline.Slots
import CacheHierarchy.Proofs.Safety

/-!
# Exact latency

How long an access takes follows from the latencies of the components on its way alone: no request
ever waits for another one. An access that its first-level cache answers takes the latency of that
cache. One that goes further passes the first level twice, and the second level twice if memory
answers it, and each time it is handed over to a component that has had its turn it loses a cycle.

The ways are told apart by what the completion says and, where there are two levels, by what the
look-up at the second level has found.
-/

namespace CacheHierarchy

variable {α : Type}

namespace HierarchyConfig

def entryLatency (c : HierarchyConfig) (side : Side) : Nat :=
  if c.topology = .splitL1 ∧ side = .instruction then c.l1i.latency else c.l1d.latency

/-- How long an access takes that is or is not a miss, and whose look-ups at the second level have
found what is listed. Misses are looked up there once. -/
def latency? (c : HierarchyConfig) (side : Side) (miss : Bool) (asked : List Bool) : Option Nat :=
  match c.topology, miss, asked with
  | .dramOnly, false, _ => some c.memoryLatency
  | .dramOnly, true, _ => none
  | _, false, _ => some (c.entryLatency side)
  | .singleLevel, true, _ => some (2 * c.entryLatency side + c.memoryLatency + 2)
  | _, true, [true] => some (2 * c.entryLatency side + c.l2.latency + 2)
  | _, true, [false] =>
    some (2 * c.entryLatency side + 2 * c.l2.latency + c.memoryLatency + 4)
  | _, true, _ => none

variable {c : HierarchyConfig} {latency : Site → Nat}

theorem entryLatency_eq
    (h : ∀ i level, c.levels[i]? = some level → latency (.cache i) = level.2.latency)
    (hentry : c.topology ≠ .dramOnly) (side : Side) :
    latency (.cache (c.topology.top side)) = c.entryLatency side := by
  obtain ⟨topology, l1d, l1i, l2, memoryLatency⟩ := c
  cases topology with
  | dramOnly => exact absurd rfl hentry
  | singleLevel | multiLevel => cases side <;> exact h 0 _ rfl
  | splitL1 =>
    cases side with
    | instruction => exact h 0 _ rfl
    | data => exact h 1 _ rfl

theorem baseLatency_eq
    (h : ∀ i level, c.levels[i]? = some level → latency (.cache i) = level.2.latency) {b : Nat}
    (hb : c.topology.base? = some b) : latency (.cache b) = c.l2.latency := by
  obtain ⟨topology, l1d, l1i, l2, memoryLatency⟩ := c
  cases topology with
  | dramOnly | singleLevel => cases hb
  | multiLevel =>
    cases hb
    exact h 1 _ rfl
  | splitL1 =>
    cases hb
    exact h 2 _ rfl

/-- What is on time is on time by the configuration. -/
theorem latency?_of_prompt {d : Outcome α} {side : Side}
    (hlatency : ∀ i level, c.levels[i]? = some level → latency (.cache i) = level.2.latency)
    (hmemory : latency .memory = c.memoryLatency) (htop : d.top = c.topology.top side)
    (h : d.Prompt c.topology latency) :
    ∃ n, c.latency? side d.miss d.asked = some n ∧ d.completedAt = d.issuedAt + n := by
  have hentry : d.top ∈ c.topology.tops → latency (.cache d.top) = c.entryLatency side := by
    intro hmem
    rw [htop]
    refine entryLatency_eq hlatency (fun hnone => ?_) side
    rw [hnone] at hmem
    cases hmem
  cases h with
  | direct hlast hmiss hdone =>
    rw [Topology.last?_eq_none_iff] at hlast
    exact ⟨_, by simp [latency?, hlast, hmiss], hmemory ▸ hdone⟩
  | hit hmem hmiss hdone =>
    rw [hentry hmem] at hdone
    refine ⟨_, ?_, hdone⟩
    cases ht : c.topology with
    | dramOnly =>
      rw [ht] at hmem
      cases hmem
    | _ => simp [latency?, ht, hmiss]
  | miss hmem hbase hmiss hdone =>
    rw [hentry hmem, hmemory] at hdone
    refine ⟨_, ?_, hdone⟩
    cases ht : c.topology with
    | singleLevel => simp [latency?, ht, hmiss]
    | dramOnly =>
      rw [ht] at hmem
      cases hmem
    | _ =>
      rw [ht] at hbase
      cases hbase
  | below hmem hbase hmiss hasked hdone =>
    rw [hentry hmem, baseLatency_eq hlatency hbase] at hdone
    refine ⟨_, ?_, hdone⟩
    cases ht : c.topology with
    | multiLevel | splitL1 => simp [latency?, ht, hmiss, hasked]
    | _ =>
      rw [ht] at hbase
      cases hbase
  | beyond hmem hbase hmiss hasked hdone =>
    rw [hentry hmem, baseLatency_eq hlatency hbase, hmemory] at hdone
    refine ⟨_, ?_, hdone⟩
    cases ht : c.topology with
    | multiLevel | splitL1 => simp [latency?, ht, hmiss, hasked]
    | _ =>
      rw [ht] at hbase
      cases hbase

end HierarchyConfig

namespace Outline

variable {p : Plan} {latency : Site → Nat}

theorem Fresh.timely {c : HierarchyConfig} {t : Topology} {o : Outline α} (h : o.Fresh c) :
    o.Timely t o.latency 0 := by
  have hqueue : ∀ {s e}, e ∉ o.queue s := fun {s e} he => by
    rw [h.queue s] at he
    cases he
  refine ⟨fun s e he => absurd he hqueue, fun s site _ => ?_, fun s site _ => ?_,
    fun s site _ e he => absurd he hqueue, fun i e he => absurd he hqueue,
    fun e he => absurd he hqueue, fun d hd => ?_, rfl⟩
  · rw [h.clock, h.now]
    rfl
  · rw [h.queue s]
    exact List.Pairwise.nil
  · rw [h.done] at hd
    cases hd

theorem timely_run (commands : List Command) {o : Outline Unit}
    (h : o.Timely p.topology latency 0) : (o.run p commands).Timely p.topology latency 0 := by
  induction commands generalizing o with
  | nil => exact h
  | cons command rest ih =>
    refine ih ?_
    cases command with
    | access addr kind => exact timely_issue h () (p.lines addr) kind.side
    | cycle => exact timely_runCycle h

end Outline

namespace Hierarchy

variable {c : HierarchyConfig}

/-- In a run of a well-formed configuration every access takes exactly the latency of its way, and
every miss has been looked up exactly once at the second level if there is one. -/
theorem run_takes_latency (hvalid : c.validate = .ok ()) (hsized : c.Sized)
    (commands : List Command) :
    ∃ start, ofConfig c = .ok start ∧
      Ends (fun _ h => ∀ d ∈ h.completions, ∃ n,
          c.latency? d.kind.side d.miss (askedIn c.topology.base? h.machine.journal d.id) =
            some n ∧ d.completedAt = d.issuedAt + n)
        (fun fault h => fault = .sumOverflow ∧ h.Exhausted ∨
          ¬c.Aligned ∧ ∃ array addr, fault = .writeBackMissed array addr)
        (run commands start) := by
  obtain ⟨start, o, hstart, ht, hshows, hfresh, hlines⟩ :=
    exists_outlined_start hvalid hsized fun _ => ()
  have htimely := Outline.timely_run commands (hfresh.timely (t := start.plan.topology))
  refine ⟨start, hstart, ((run_ends commands hshows.tracked).and
    (run_outlined commands hshows)).mono (fun _ h hh d hd => ?_) fun fault h hfails => ?_⟩
  · obtain ⟨-, -, asked, houtlined⟩ := hh
    have hdone : d.outcome (h.vantage start.plan fun _ => ()) asked ∈
        (o.run start.plan commands).done := by
      rw [← houtlined.outline, ← houtlined.asked]
      exact List.mem_map_of_mem hd
    have ht' : start.plan.topology = c.topology := ht
    have hprompt := ht' ▸ htimely.done _ hdone
    obtain ⟨n, hlatency, htakes⟩ :=
      HierarchyConfig.latency?_of_prompt hfresh.latency hfresh.memoryLatency
        (congrArg (Topology.top · d.kind.side) ht') hprompt
    have hasked : askedIn start.plan.topology.base? h.machine.journal = asked := houtlined.asked
    rw [← ht', hasked]
    exact ⟨n, hlatency, htakes⟩
  · exact hfails.safe ht hlines

theorem run_takes_latency_narrow :
    HierarchyConfig.narrow.validate = .ok () ∧ HierarchyConfig.narrow.Sized ∧
      ∃ start, ofConfig .narrow = .ok start ∧
        Ends (fun _ h => ∀ d ∈ h.completions, ∃ n,
            HierarchyConfig.narrow.latency? d.kind.side d.miss
                (askedIn HierarchyConfig.narrow.topology.base? h.machine.journal d.id) = some n ∧
              d.completedAt = d.issuedAt + n)
          (fun fault h => fault = .sumOverflow ∧ h.Exhausted ∨
            ¬HierarchyConfig.narrow.Aligned ∧ ∃ array addr, fault = .writeBackMissed array addr)
          (run Command.mixed start) :=
  ⟨rfl, by decide, run_takes_latency rfl (by decide) _⟩

end Hierarchy

end CacheHierarchy
