import CacheHierarchy.Proofs.Execution.Runs
import CacheHierarchy.Proofs.Watch.Actions

/-!
# Unseen steps of a hierarchy

What the core does between two cycles is unseen by a watch that overlooks the look-ups.
-/

namespace CacheHierarchy.Hierarchy

open Machine Watch

variable {α : Type} {w : Watch α} {h : Hierarchy} {r : Request}

theorem unseen_enter (hlookups : ∀ j, w.OverlooksLookups j) (t : Topology) (r : Request) :
    w.Unseen (enter t r) := by
  unfold enter
  cases t.entry? with
  | none => exact unseen_sendToMemory r
  | some ports =>
    refine unseen_update fun c m hc => Ends.bind (acceptLookup_yields (setCache_ends ?_))
    exact Same.put hc (hlookups _ c _)

theorem access_same (hlookups : ∀ j, w.OverlooksLookups j) {addr : Nat} {kind : AccessKind}
    (hkind : kind.isDemand = true) :
    Yields (fun _ s => w.Same h.machine s.machine ∧ s.cycle = h.cycle) (access addr kind h) := by
  have hunseen : w.Unseen (do
      let r := Request.ofAccess (← freshId) addr kind h.cycle
      record (.created r)
      let m ← get
      let outstanding ← attempt (m.outstanding.insert r.id addr kind)
      set { m with outstanding }
      enter h.topology r : Action Unit) := by
    refine unseen_freshId.bind fun id => (unseen_routine rfl).bind fun _ => ?_
    refine unseen_get_bind fun m => Ends.bind (Yields.attempt fun outstanding _ => ?_)
    exact Ends.set_bind ((unseen_enter hlookups _ _).seq (Same.of_eq rfl rfl))
  unfold access
  rw [if_pos hkind]
  exact Ends.get_bind (onMachine_ends ((hunseen _).mono (fun _ _ hsame => ⟨hsame, rfl⟩) fun _ _ => id))

theorem retire_same (r : Request) :
    Yields (fun _ s => w.Same h.machine s.machine ∧ s.cycle = h.cycle) (retire r h) := by
  apply Ends.get_bind
  cases h.machine.outstanding.remove? r.id with
  | none => trivial
  | some removed =>
    refine Ends.bind (onMachine_ends (Ends.modify_bind (record_ends ?_)))
    refine Ends.bind (Yields.attempt_add ⟨?_, rfl⟩)
    exact Same.of_eq_cons rfl rfl (w.deaf (.retired r h.cycle) rfl)

theorem retireReady_same (n : Nat) :
    Yields (fun _ s => w.Same h.machine s.machine ∧ s.cycle = h.cycle) (retireReady n h) := by
  induction n generalizing h with
  | zero => exact ⟨Same.refl _, rfl⟩
  | succ n ih =>
    apply Ends.get_bind
    cases h.machine.finished with
    | nil => exact ⟨Same.refl _, rfl⟩
    | cons r finished =>
      refine Ends.bind (onMachine_ends (Ends.of_modify (Ends.seq (retire_same (w := w) r) ?_)))
      rintro - s ⟨hsame, hcycle⟩
      have hleft : w.Same h.machine { h.machine with finished } := Same.of_eq rfl rfl
      refine ih.mono ?_ fun _ _ => id
      rintro - s' ⟨hsame', hcycle'⟩
      exact ⟨(hleft.trans hsame).trans hsame', hcycle'.trans hcycle⟩

theorem runCycle_yields {I : Machine → Prop}
    (hmachine : Yields (fun _ => I) (Machine.runCycle h.machine))
    (hsame : ∀ m m', I m → w.Same m m' → I m') :
    Yields (fun _ s => I s.machine ∧ s.cycle = h.cycle + 1) (runCycle h) := by
  refine Ends.bind (onMachine_ends (hmachine.mono ?_ fun _ _ => id))
  intro _ m hm
  refine Ends.seq (Ends.get_bind (retireReady_same (w := w) _)) ?_
  rintro - s ⟨hs, hcycle⟩
  refine Ends.get_bind (Ends.bind (Yields.attempt_add ⟨hsame m _ hm hs, ?_⟩))
  exact congrArg (· + 1) hcycle

end CacheHierarchy.Hierarchy
