import CacheHierarchy.Proofs.Overtaking.Cycles
import CacheHierarchy.Proofs.Safety

/-!
# Fills that install nothing

At the end of every cycle, a fill that waits at the first level is marked if and only if the second
level has displaced its line since it handed the fill up. A fill that is marked installs nothing: its
cache counts a back-invalidation, and the line of a write goes straight to memory.
-/

namespace CacheHierarchy

namespace Machine

/-- What a request is serviced as: as a write if a write was merged into it. -/
def servicedAs (m : Machine) (r : Request) : AccessKind := (m.outstanding.kindOf? r.id).getD r.kind

/-- What cache `c` owes memory for a fill that installs nothing: the line of a write. -/
def owes (m : Machine) (c : Cache) (r : Request) : List Request :=
  if (m.servicedAs r).isWrite then
    [Request.ofWriteBack m.nextId (r.addr / c.tags.geometry.lineSize * c.tags.geometry.lineSize)
      c.cycle]
  else []

/-- A fill of cache `i` is done with, and has installed nothing. -/
structure Bypasses (m : Machine) (i : Nat) (c : Cache) (r : Request) (m' : Machine) : Prop where
  finished : m'.finished = m.finished ++ [r.finish]
  /-- The tags of its cache are as they were, but for the counters. -/
  caches : m'.caches = m.caches.set i { c with
    tags := { c.tags with
      counters := c.tags.counters.countBackInvalidation (m.servicedAs r).isWrite } }
  queue : m'.memory.queue.items = m.memory.queue.items ++ (m.owes c r).map fun w =>
    { w with readyAt := m.memory.cycle + m.memory.latency }
  expected : m'.memory.expected.notes = m.memory.expected.notes ++ (m.owes c r).map Request.note

variable {m : Machine} {i : Nat} {c : Cache} {r : Request}

theorem writeStraightBack_ends_of_fits {Q : Unit → Machine → Prop} (addr cycle : Nat)
    (h : Q () { m with
      nextId := m.nextId + 1
      memory := { m.memory with
        queue := m.memory.queue.push { Request.ofWriteBack m.nextId addr cycle with
          readyAt := m.memory.cycle + m.memory.latency }
        expected := m.memory.expected.announce (Request.ofWriteBack m.nextId addr cycle).note }
      journal := .accepted { Request.ofWriteBack m.nextId addr cycle with
        readyAt := m.memory.cycle + m.memory.latency } :: m.journal }) :
    Ends Q (fun fault _ => fault = .sumOverflow) (writeStraightBack addr cycle m) := by
  refine Ends.bind (Ends.get_bind (Ends.bind (Ends.attempt_add ?_ fun _ => rfl)))
  refine Ends.set_bind (Ends.pure (Ends.modify_bind (Ends.get_bind ?_)))
  exact Ends.bind (Ends.attempt_add h fun _ => rfl)

theorem fillOne_bypasses (hc : m.caches[i]? = some c) (habove : c.above = .core)
    (hdemand : r.kind.isDemand = true) (hbypass : r.bypass = true) :
    Ends (fun _ => m.Bypasses i c r) (fun fault _ => fault = .sumOverflow) (fillOne i r m) := by
  have hkind : ¬r.kind.isWriteBack = true := by
    rw [AccessKind.isWriteBack_iff]
    exact Request.ne_writeBack hdemand
  rw [fillOne, if_neg hkind]
  refine Ends.bind (cacheAt_ends hc ?_)
  rw [habove]
  refine Ends.get_bind ?_
  rw [hbypass]
  refine Ends.bind (cacheAt_ends hc (Ends.bind (setCache_ends (Ends.bind (record_ends ?_)))))
  change Ends _ _ ((if (m.servicedAs r).isWrite then _ else _ : Action Unit) _)
  cases hwrite : (m.servicedAs r).isWrite with
  | true =>
    refine Ends.bind (writeStraightBack_ends_of_fits _ _ (Ends.of_modify ⟨rfl, rfl, ?_, ?_⟩))
    · rw [owes, if_pos hwrite]
      rfl
    · rw [owes, if_pos hwrite]
      rfl
  | false =>
    have howes : m.owes c r = [] := if_neg (hwrite ▸ Bool.false_ne_true)
    refine Ends.of_modify ⟨rfl, rfl, ?_, ?_⟩
    · rw [howes]
      exact (List.append_nil _).symm
    · rw [howes]
      exact (List.append_nil _).symm

end Machine

namespace Hierarchy

/-- The fills that wait at the first level were handed up by cache `b`, and are marked exactly if it
has displaced their lines since. -/
def MarksDisplaced (h : Hierarchy) (b lineSize : Nat) : Prop :=
  ∀ i ∈ h.topology.tops, ∃ d, h.machine.caches[i]? = some d ∧ d.above = .core ∧
    ∀ r ∈ d.fills.items, r.kind.isDemand = true ∧ h.machine.handedUp b r.id = true ∧
      (r.bypass = true ↔ h.machine.displacedSince b lineSize r = true)

variable {p : Plan} {h : Hierarchy} {b lineSize : Nat}

theorem Tracked.marksDisplaced (h' : h.Tracked p) (hb : p.topology.base? = some b)
    (hmarks : h.machine.Marks b lineSize Machine.nothingDue) : h.MarksDisplaced b lineSize := by
  intro i hi
  rw [h'.topology] at hi
  obtain ⟨d, hd, hsound⟩ := h'.tracks.sound.exists_cache (Topology.lt_size_of_mem_tops hi)
  refine ⟨d, hd, hsound.above.trans (Topology.above_top hi), fun r hr => ?_⟩
  have hfits := h'.fits (Machine.mem_traffic_of_cache hd
    ((mem_traffic d).2 (.inr (.inl ⟨rfl, hr⟩))))
  obtain ⟨hup, hmark⟩ := hmarks i d (Topology.top_ne_base hi hb) hd r hr
  rw [Machine.nothingDue, Bool.or_false] at hmark
  exact ⟨(hfits.fills_top hi).1, hup, by rw [hmark]⟩

theorem marks_of_ofConfig {c : HierarchyConfig} (hvalid : c.validate = .ok ()) (hsized : c.Sized)
    (hstart : ofConfig c = .ok h) : h.machine.Marks b lineSize Machine.nothingDue := by
  intro j d _ hd r hr
  obtain ⟨-, -, hfresh⟩ := exists_fresh_of_ofConfig_eq_ok hvalid hsized hstart
  obtain ⟨name, g, latency, rfl⟩ := hfresh j d hd
  exact absurd hr List.not_mem_nil

/-- In every run of a well-formed configuration of two levels with lines of one size, between any
two commands, the fills that wait at the first level are marked exactly if the second level has
displaced their lines since it handed them up. A marked fill of a first-level cache, whenever it is
dealt with, finishes its request, leaves the lines of its cache and their order of use as they are,
counts one back-invalidation there, and sends memory one write-back of its line if it is serviced as
a write, and nothing otherwise. -/
theorem run_bypasses_displaced_fills {c : HierarchyConfig} (hvalid : c.validate = .ok ())
    (hsized : c.Sized) (huniform : c.Uniform lineSize) (hb : c.topology.base? = some b)
    (commands : List Command) :
    (∃ start, ofConfig c = .ok start ∧ Ends (fun _ h => h.MarksDisplaced b lineSize)
      (fun fault h => fault = .sumOverflow ∧ h.Exhausted) (run commands start)) ∧
    ∀ (m : Machine) (i : Nat) (d : Cache) (r : Request), m.caches[i]? = some d →
      d.above = .core → r.kind.isDemand = true → r.bypass = true →
      Ends (fun _ => m.Bypasses i d r) (fun fault _ => fault = .sumOverflow)
        (Machine.fillOne i r m) := by
  refine ⟨?_, fun m i d r hd habove hdemand hbypass =>
    Machine.fillOne_bypasses hd habove hdemand hbypass⟩
  obtain ⟨start, hstart, h', ht, hlines⟩ := exists_start hvalid hsized
  have hplan : start.plan.Uniform lineSize := huniform.plan ht hlines
  have hbase : start.plan.topology.base? = some b := (congrArg Topology.base? ht).trans hb
  have hmarks := run_marks hbase hplan commands h' (marks_of_ofConfig hvalid hsized hstart)
  refine ⟨start, hstart, ((run_ends commands h').and hmarks).mono ?_ ?_⟩
  · exact fun _ _ ⟨hs, hmarks⟩ => hs.marksDisplaced hbase hmarks
  · exact fun _ _ hfails => hfails.overflow (.inr ⟨b, hbase, hplan.aligned hbase⟩)

theorem run_bypasses_displaced_fills_narrow :
    HierarchyConfig.narrow.validate = .ok () ∧ HierarchyConfig.narrow.Sized ∧
      HierarchyConfig.narrow.Uniform 32 ∧ HierarchyConfig.narrow.topology.base? = some 2 ∧
      (∃ start, ofConfig .narrow = .ok start ∧ Ends (fun _ h => h.MarksDisplaced 2 32)
        (fun fault h => fault = .sumOverflow ∧ h.Exhausted)
        (run (.access 0 .write (by decide) rfl :: .access 64 .read (by decide) rfl ::
          List.replicate 11 .cycle) start)) ∧
      ∀ (m : Machine) (i : Nat) (d : Cache) (r : Request), m.caches[i]? = some d →
        d.above = .core → r.kind.isDemand = true → r.bypass = true →
        Ends (fun _ => m.Bypasses i d r) (fun fault _ => fault = .sumOverflow)
          (Machine.fillOne i r m) :=
  ⟨rfl, by decide, by decide, rfl,
    run_bypasses_displaced_fills rfl (by decide) (show HierarchyConfig.narrow.Uniform 32 by decide)
      rfl _⟩

/-- The line of address 64 takes the place of that of address 0 at the second level, before the
fills of the two are let in above. -/
example : ∃ start, ofConfig .narrow = .ok start ∧
    Ends (fun _ h => h.machine.caches[1]?.map (fun d => d.fills.items.map fun r =>
        (r.addr, r.bypass)) = some [(0, true), (64, false)])
      (fun _ _ => False)
      (run (.access 0 .write (by decide) rfl :: .access 64 .read (by decide) rfl ::
        List.replicate 11 .cycle) start) := by
  decide +kernel

end Hierarchy

end CacheHierarchy
