import CacheHierarchy.Proofs.Overview.Dirtied
import CacheHierarchy.Proofs.Safety

/-!
# Dirty bits

Between two commands the journal tells of every resident line whether it is dirty. In a first-level
cache it is dirty if a write to it was looked up there at or after the look-up whose miss brought
the copy in. In the second level it is dirty if a write-back of it was taken in since the copy was
installed; no demand write ever makes it so.
-/

namespace CacheHierarchy.Hierarchy

/-- The dirty bits are those that the journal tells. -/
structure Accountable (h : Hierarchy) : Prop where
  top : ∀ i (c : Cache), h.machine.caches[i]? = some c → c.isTop = true →
    ∀ line dirty, c.tags.lines line = some dirty →
      Copied c.tags.geometry i line h.machine.journal dirty
  below : ∀ i (c : Cache), h.machine.caches[i]? = some c → c.isTop = false →
    ∀ line dirty, c.tags.lines line = some dirty →
      Soiled c.tags.geometry i line h.machine.journal dirty

variable {p : Plan} {h : Hierarchy}

theorem Tracked.accountable (h' : h.Tracked p) : h.Accountable := by
  have hdirtied := h'.tracks.reach.dirtied
  have hsound := h'.tracks.sound
  have hlt : ∀ {i : Nat} {c : Cache}, h.machine.caches[i]? = some c →
      i ∈ p.topology.tops ∨ p.topology.base? = some i := by
    intro i c hc
    rw [← Topology.lt_size_iff, ← hsound.length]
    exact (List.getElem?_eq_some_iff.1 hc).1
  refine ⟨fun i c hc htop line dirty hline => ?_, fun i c hc htop line dirty hline => ?_⟩
  · have hcsound := hsound.caches i c hc
    rw [Cache.isTop, hcsound.above, beq_iff_eq] at htop
    rcases hlt hc with hi | hb
    · have hcopied := hdirtied.copied i hi line dirty
      rw [Machine.lines_overview hc] at hcopied
      rw [hcsound.geometry]
      exact hcopied hline
    · obtain ⟨ports, habove, -⟩ := Topology.above_base hb
      rw [habove] at htop
      cases htop
  · have hcsound := hsound.caches i c hc
    rw [Cache.isTop, hcsound.above, beq_eq_false_iff_ne] at htop
    rcases hlt hc with hi | hb
    · exact absurd (Topology.above_top hi) htop
    · have hsoiled := hdirtied.soiled i hb line dirty
      rw [Machine.lines_overview hc] at hsoiled
      rw [hcsound.geometry]
      exact hsoiled hline

/-- In every run of a well-formed configuration the dirty bits are those that the journal tells. -/
theorem run_accounts_for_dirt {c : HierarchyConfig} (hvalid : c.validate = .ok ())
    (hsized : c.Sized) (commands : List Command) :
    ∃ start, ofConfig c = .ok start ∧ Ends (fun _ h => h.Accountable)
      (fun fault s => fault = .sumOverflow ∧ s.Exhausted ∨
        ¬c.Aligned ∧ ∃ array addr, fault = .writeBackMissed array addr) (run commands start) := by
  obtain ⟨start, p, hstart, -, hends⟩ := exists_safe_run hvalid hsized commands
  exact ⟨start, hstart, hends.mono (fun _ _ htracked => htracked.accountable) fun _ _ => id⟩

theorem run_accounts_for_dirt_narrow :
    HierarchyConfig.narrow.validate = .ok () ∧ HierarchyConfig.narrow.Sized ∧
      ∃ start, ofConfig .narrow = .ok start ∧ Ends (fun _ h => h.Accountable)
        (fun fault s => fault = .sumOverflow ∧ s.Exhausted ∨
          ¬HierarchyConfig.narrow.Aligned ∧ ∃ array addr, fault = .writeBackMissed array addr)
        (run Command.mixed start) :=
  ⟨rfl, by decide, run_accounts_for_dirt rfl (by decide) _⟩

end CacheHierarchy.Hierarchy
