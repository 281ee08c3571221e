import CacheHierarchy.Proofs.Execution.Start
import CacheHierarchy.Proofs.Overview.Inclusive

/-!
# Safety of runs

The faults that stand for a broken contract do not occur in a run, with one exception. A level is
validated by itself, so a first-level cache may have lines of another size than the second level
has. Its write-backs then name lines that the second level need not hold, and such a write-back
stops the run. Instruction lines are never dirty, so their size does not matter.
-/

namespace CacheHierarchy

namespace HierarchyConfig

/-- Where there are two levels, the lines of the data side are those of the second level. -/
def Aligned (c : HierarchyConfig) : Prop :=
  c.topology.base? ≠ none → c.l1d.lineSize = c.l2.lineSize

variable {c : HierarchyConfig} {p : Plan}

theorem Aligned.plan (h : c.Aligned) (ht : p.topology = c.topology)
    (hlines : ∀ i level, c.levels[i]? = some level → (p.geometry i).lineSize = level.2.lineSize)
    {b : Nat} (hb : p.topology.base? = some b) : p.Aligned b := by
  intro i hi hdirties
  rw [ht] at hi hb
  have hside := hdirties.side_ne
  rw [ht] at hside
  have hsize := h (by rw [hb]; exact Option.some_ne_none b)
  obtain ⟨topology, l1d, l1i, l2, latency⟩ := c
  cases topology with
  | dramOnly => cases hb
  | singleLevel => cases hb
  | multiLevel =>
    cases hb
    obtain rfl := List.mem_singleton.1 hi
    rw [Plan.Matches, hlines 0 _ rfl, hlines 1 _ rfl]
    exact hsize
  | splitL1 =>
    cases hb
    rcases List.mem_cons.1 hi with rfl | hi
    · exact absurd rfl hside
    · obtain rfl := List.mem_singleton.1 hi
      rw [Plan.Matches, hlines 1 _ rfl, hlines 2 _ rfl]
      exact hsize

end HierarchyConfig

namespace Hierarchy

variable {c : HierarchyConfig} {p : Plan}

theorem Fails.overflows (h : ∀ b, p.topology.base? = some b → p.Aligned b) {fault : Fault}
    {s : Hierarchy} (hfails : Fails p fault s) : fault = .sumOverflow ∧ s.Overflows p := by
  rcases hfails with hoverflow | ⟨-, -, -, b, o, hb, hreach, hrepair, r, hr, hkind, hline⟩
  · exact hoverflow
  · exact absurd hline (hreach.line_ne_none hb (h b hb) hrepair hr hkind)

theorem Fails.overflow (h : p.topology.base? = none ∨ ∃ b, p.topology.base? = some b ∧ p.Aligned b)
    {fault : Fault} {s : Hierarchy} (hfails : Fails p fault s) :
    fault = .sumOverflow ∧ s.Exhausted := by
  refine (hfails.overflows fun b hb => ?_).imp_right Overflows.exhausted
  rcases h with hnone | ⟨b', hb', halign⟩
  · rw [hnone] at hb
    cases hb
  · obtain rfl := Option.some.inj (hb'.symm.trans hb)
    exact halign

/-- Where all levels have lines of one size, every run keeps its hierarchy tracked, or ends in an
overflow. -/
theorem exists_uniform_run {lineSize : Nat} (hvalid : c.validate = .ok ()) (hsized : c.Sized)
    (huniform : c.Uniform lineSize) (commands : List Command) :
    ∃ start p, ofConfig c = .ok start ∧ p.topology = c.topology ∧ p.Uniform lineSize ∧
      Ends (fun _ => Tracked p) (fun fault s => fault = .sumOverflow ∧ s.Exhausted)
        (run commands start) := by
  obtain ⟨start, p, hstart, ht, hlines, hends⟩ := exists_run hvalid hsized commands
  have hplan := huniform.plan ht hlines
  refine ⟨start, p, hstart, ht, hplan, hends.mono (fun _ _ => id) fun fault s hfails => ?_⟩
  apply hfails.overflow
  cases hb : p.topology.base? with
  | none => exact .inl rfl
  | some b => exact .inr ⟨b, rfl, hplan.aligned hb⟩

/-- A run ends in no fault but an overflow or a write-back that misses at a second level whose lines
are not those of the first. -/
theorem Fails.safe (ht : p.topology = c.topology)
    (hlines : ∀ i level, c.levels[i]? = some level → (p.geometry i).lineSize = level.2.lineSize)
    {fault : Fault} {s : Hierarchy} (hfails : Fails p fault s) :
    fault = .sumOverflow ∧ s.Exhausted ∨
      ¬c.Aligned ∧ ∃ array addr, fault = .writeBackMissed array addr := by
  by_cases halign : c.Aligned
  · refine .inl (hfails.overflow ?_)
    cases hb : p.topology.base? with
    | none => exact .inl rfl
    | some b => exact .inr ⟨b, rfl, halign.plan ht hlines hb⟩
  · exact hfails.imp (fun ⟨hfault, hoverflows⟩ => ⟨hfault, hoverflows.exhausted⟩)
      fun ⟨array, addr, hfault, _⟩ => ⟨halign, array, addr, hfault⟩

/-- Every run of a well-formed configuration keeps its hierarchy tracked, or ends in an overflow or
in a write-back that misses at a second level whose lines are not those of the first. -/
theorem exists_safe_run (hvalid : c.validate = .ok ()) (hsized : c.Sized)
    (commands : List Command) :
    ∃ start p, ofConfig c = .ok start ∧ p.topology = c.topology ∧ Ends (fun _ => Tracked p)
      (fun fault s => fault = .sumOverflow ∧ s.Exhausted ∨
        ¬c.Aligned ∧ ∃ array addr, fault = .writeBackMissed array addr) (run commands start) := by
  obtain ⟨start, p, hstart, ht, hlines, hends⟩ := exists_run hvalid hsized commands
  exact ⟨start, p, hstart, ht, hends.mono (fun _ _ => id) fun _ _ => Fails.safe ht hlines⟩

/-- No check fires in a run of a well-formed configuration, but that of a write-back that misses
at the second level, and that one only if the lines of the two levels differ. -/
theorem run_ends_safely (hvalid : c.validate = .ok ()) (hsized : c.Sized)
    (commands : List Command) :
    ∃ start, ofConfig c = .ok start ∧ Ends (fun _ _ => True)
      (fun fault s => fault = .sumOverflow ∧ s.Exhausted ∨
        ¬c.Aligned ∧ ∃ array addr, fault = .writeBackMissed array addr) (run commands start) := by
  obtain ⟨start, p, hstart, -, hends⟩ := exists_safe_run hvalid hsized commands
  exact ⟨start, hstart, hends.mono (fun _ _ _ => trivial) fun _ _ => id⟩

end Hierarchy

/-- A first-level cache of one line of 64 bytes, above a second level of two lines of 32 bytes. -/
def HierarchyConfig.misaligned : HierarchyConfig where
  topology := .multiLevel
  l1d := { size := 64, assoc := 1, lineSize := 64, latency := 1 }
  l2 := { size := 64, assoc := 1, lineSize := 32, latency := 1 }
  memoryLatency := 1

namespace Hierarchy

theorem run_ends_safely_misaligned :
    HierarchyConfig.misaligned.validate = .ok () ∧ HierarchyConfig.misaligned.Sized ∧
      ∃ start, ofConfig .misaligned = .ok start ∧ Ends (fun _ _ => True)
        (fun fault s => fault = .sumOverflow ∧ s.Exhausted ∨
          ¬HierarchyConfig.misaligned.Aligned ∧ ∃ array addr, fault = .writeBackMissed array addr)
        (run (.access 60 .write (by decide) rfl :: List.replicate 12 .cycle) start) :=
  ⟨rfl, by decide, run_ends_safely rfl (by decide) _⟩

/-- The line of address 60 reaches from 0 to 63 in the first level, so its write-back names
address 0; the second level only holds the line from 32 to 63. -/
theorem misaligned_misses_writeBack :
    HierarchyConfig.misaligned.validate = .ok () ∧
      ∃ start, ofConfig .misaligned = .ok start ∧
        Ends (fun _ _ => False) (fun fault _ => fault = .writeBackMissed "L2" 0)
          (run (.access 60 .write (by decide) rfl :: List.replicate 12 .cycle ++
            .access 64 .read (by decide) rfl :: List.replicate 12 .cycle) start) :=
  ⟨rfl, by decide +kernel⟩

end Hierarchy

end CacheHierarchy
