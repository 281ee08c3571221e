import CacheHierarchy.Proofs.Overview.Durable
import CacheHierarchy.Proofs.Safety

/-!
# Durability of writes

When a hierarchy is idle, nothing is under way any more, so the dirt of a write that is done is in
a cache or has reached memory. The exception is a write that was merged into a miss after the fill
of that miss, which no fill makes up for.
-/

namespace CacheHierarchy

def Cache.isDirty (c : Cache) (addr : Nat) : Bool :=
  match c.tags.line? addr with
  | .ok (some line) => line.dirty
  | _ => false

/-- Memory took in a write-back of a line, in some cycle from `since` on. -/
def Event.returns (lineSize line since : Nat) : Event → Bool
  | absorbed .memory r cycle => r.addr / lineSize == line && decide (since ≤ cycle)
  | _ => false

/-- The line of a completed access is dirty in some cache, or memory has taken in a write-back of it
since. -/
def Hierarchy.Keeps (h : Hierarchy) (lineSize : Nat) (d : Completion) : Prop :=
  (∃ c ∈ h.machine.caches, c.isDirty d.addr = true) ∨
    ∃ event ∈ h.machine.journal, event.returns lineSize (d.addr / lineSize) d.completedAt = true

instance (h : Hierarchy) (lineSize : Nat) (d : Completion) : Decidable (h.Keeps lineSize d) :=
  inferInstanceAs (Decidable (_ ∨ _))

namespace Machine

variable {p : Plan} {x : Context} {m : Machine} {lineSize : Nat}

theorem exists_dirty (hsound : m.Sound p) (huniform : p.Uniform lineSize) {i addr : Nat}
    (h : (m.overview x).lines i (addr / lineSize) = some true) :
    ∃ c ∈ m.caches, c.isDirty addr = true := by
  cases hc : m.caches[i]? with
  | none =>
    simp only [overview, view, hc] at h
    cases h
  | some c =>
    have hcsound := hsound.caches i c hc
    have hi : i < p.topology.size := hsound.length ▸ (List.getElem?_eq_some_iff.1 hc).1
    rw [lines_overview hc, ← huniform.line_eq hi, ← hcsound.line_eq] at h
    have hline := hcsound.tags.line?_eq addr
    rw [h, Option.map_some] at hline
    refine ⟨c, List.mem_of_getElem? hc, ?_⟩
    rw [Cache.isDirty, hline]

end Machine

namespace Hierarchy

variable {p : Plan} {h : Hierarchy} {lineSize : Nat}

/-- What is kept in an idle hierarchy is in a cache or in memory. -/
theorem Tracked.keeps (h' : h.Tracked p) (huniform : p.Uniform lineSize) (hidle : h.isIdle = true)
    {d : Completion} (hkept : Kept lineSize
      (h.machine.overview { now := h.cycle, completions := h.completions })
      (d.addr / lineSize) d.completedAt) : h.Keeps lineSize d := by
  have horderly := h'.tracks.reach.orderly
  cases hkept with
  | resident hline => exact .inl (Machine.exists_dirty h'.tracks.sound huniform hline)
  | writeBack hr hkind hline =>
    obtain ⟨site, hsite⟩ := (horderly.admits _ hr).fits.exists_receiver hkind
    have hexpected := horderly.mem_expected hr hkind hsite
    rw [expected_of_isIdle hidle] at hexpected
    exact absurd hexpected (Multiset.notMem_zero _)
  | underWay hr hs hdemand hmiss hline he hid hkind =>
    rw [entries_of_isIdle hidle] at he
    exact absurd he List.not_mem_nil
  | owed hd hline => cases hd
  | absorbed hr hline hcycle =>
    refine .inr ⟨_, hr, ?_⟩
    rw [Event.returns, hline, beq_self_eq_true, Bool.true_and]
    exact decide_eq_true hcycle

/-- Where there are caches, and their lines are of one size, no run loses a completed write, but
one that was merged into a miss after its fill, and that no fill services as a write. -/
theorem run_keeps_writes {c : HierarchyConfig} {lineSize : Nat} (hvalid : c.validate = .ok ())
    (hsized : c.Sized) (huniform : c.Uniform lineSize) (hcaches : c.topology ≠ .dramOnly)
    (commands : List Command) :
    ∃ start, ofConfig c = .ok start ∧ Ends
      (fun _ h => h.isIdle = true → ∀ d ∈ h.completions, d.kind = .write →
        ¬MergedLate h.machine.journal d.id → h.Keeps lineSize d)
      (fun fault h => fault = .sumOverflow ∧ h.Exhausted) (run commands start) := by
  obtain ⟨start, p, hstart, ht, hplan, hends⟩ :=
    exists_uniform_run hvalid hsized huniform commands
  have hlast : p.topology.last? ≠ none := by
    rw [ht, ne_eq, Topology.last?_eq_none_iff]
    exact hcaches
  refine ⟨start, hstart, hends.mono (fun _ h htracked hidle d hd hkind hlate => ?_) fun _ _ => id⟩
  have hdurable := htracked.tracks.reach.durable hlast hplan
  exact htracked.keeps hplan hidle ((hdurable.completions d hd).2 hkind hlate)

end Hierarchy

def HierarchyConfig.singleLine : HierarchyConfig where
  topology := .singleLevel
  l1d := { size := 64, assoc := 1, lineSize := 64, latency := 1 }
  memoryLatency := 1

namespace Hierarchy

theorem run_keeps_writes_singleLine :
    HierarchyConfig.singleLine.validate = .ok () ∧ HierarchyConfig.singleLine.Sized ∧
      HierarchyConfig.singleLine.Uniform 64 ∧
      HierarchyConfig.singleLine.topology ≠ .dramOnly ∧
      ∃ start, ofConfig .singleLine = .ok start ∧ Ends
        (fun _ h => h.isIdle = true → ∀ d ∈ h.completions, d.kind = .write →
          ¬MergedLate h.machine.journal d.id → h.Keeps 64 d)
        (fun fault h => fault = .sumOverflow ∧ h.Exhausted)
        (run (.access 0 .write (by decide) rfl :: .access 64 .read (by decide) rfl ::
          List.replicate 8 .cycle) start) :=
  ⟨rfl, by decide, by decide, by decide,
    run_keeps_writes rfl (by decide) (by decide) (by decide) _⟩

/-- The reads of two lines are filled in the same cycle, so the second displaces the first. In that
cycle the write finds the miss of the first read, which is done with. -/
theorem singleLine_loses_write :
    HierarchyConfig.singleLine.validate = .ok () ∧ HierarchyConfig.singleLine.Uniform 64 ∧
      ∃ start, ofConfig .singleLine = .ok start ∧ Ends
        (fun _ h => h.isIdle = true ∧ ∃ d ∈ h.completions, d.kind = .write ∧ ¬h.Keeps 64 d)
        (fun _ _ => False)
        (run (.access 0 .read (by decide) rfl :: .access 64 .read (by decide) rfl ::
          List.replicate 4 .cycle ++ .access 0 .write (by decide) rfl ::
          List.replicate 2 .cycle) start) :=
  ⟨rfl, by decide, by decide +kernel⟩

end Hierarchy

end CacheHierarchy
