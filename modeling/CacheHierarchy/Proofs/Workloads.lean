import CacheHierarchy.Proofs.Traffic.Answers
import CacheHierarchy.Simulation.Workload

/-!
# Traffic made beforehand

A simulation asks its generator for one access at a time. As no answer is a fault, this is no different
from making all accesses first and working on them as on the records of a trace.
-/

namespace CacheHierarchy.Simulation

open CacheHierarchy.Random

variable {σ : Type} [Source σ]

theorem issueTraffic_eq (hsource : Source.IsBounded σ) {t : Traffic σ} (hsized : t.config.Sized)
    (n : Nat) : issueTraffic t n = (t.take n).forM issue := by
  induction n generalizing t with
  | zero => rfl
  | succ n ih =>
    by_cases hlt : t.issued < t.config.count
    · obtain ⟨record, t', hnext, hconfig, -⟩ := Traffic.exists_next (fun _ => hsource) hsized hlt
      have hrest : issueTraffic t' n = (t'.take n).forM issue := ih (hconfig ▸ hsized)
      rw [Traffic.take_succ hnext, issueTraffic, hnext]
      calc
        _ = issue record >>= fun _ => issueTraffic t' n := rfl
        _ = (record :: t'.take n).forM issue := by rw [hrest]; rfl
    · have hle := Nat.le_of_not_lt hlt
      rw [Traffic.take_of_le hle, issueTraffic, Traffic.next_of_le hle]
      rfl

/-- A workload whose numbers are words is worked on as the list of its accesses is. -/
theorem run_eq_simulate {w : Workload} (hsized : ∀ config, w = .generated config → config.Sized) :
    run w = simulate w.records := by
  cases w with
  | recorded records => rfl
  | generated config =>
    rw [run, issueTraffic_eq isBounded_keyStream (hsized config rfl), Workload.records,
      Traffic.records_eq_take]
    rfl

end CacheHierarchy.Simulation
