import CacheHierarchy.Proofs.Execution.Actions

/-!
# What a step yields

`Yields Q result` says that a result has `Q` if it is no fault. Where only this is asked for, a
step is taken apart without showing that it does not stop, and each operation tells what it has
done exactly.
-/

namespace CacheHierarchy

/-- A result is good unless it is a fault. -/
abbrev Yields {σ α : Type} (Q : α → σ → Prop) (result : EStateM.Result Fault σ α) : Prop :=
  Ends Q (fun _ _ => True) result

section

variable {σ α : Type} {Q Q' : α → σ → Prop} {E : Fault → σ → Prop} {s : σ}

theorem Ends.yields {result : EStateM.Result Fault σ α} (h : Ends Q E result) : Yields Q result :=
  h.mono (fun _ _ => id) fun _ _ _ => trivial

theorem Ends.and {result : EStateM.Result Fault σ α} (h : Ends Q E result)
    (h' : Yields Q' result) : Ends (fun a s => Q a s ∧ Q' a s) E result :=
  (h.meet h').mono (fun _ _ => id) fun _ _ => And.left

theorem Yields.attempt {x : Except Fault α} (h : ∀ a, x = .ok a → Q a s) :
    Yields Q (attempt x s) := by
  cases x with
  | ok a => exact h a rfl
  | error fault => trivial

/-- A sum that is no fault is the sum. -/
theorem Yields.attempt_add {Q : Nat → σ → Prop} {a b : Nat} (h : Q (a + b) s) :
    Yields Q (CacheHierarchy.attempt (Word.add a b) s) :=
  Yields.attempt fun _ hsum => (Word.add_eq_ok_iff.1 hsum).2 ▸ h

end

namespace Machine

variable {m : Machine} {i j : Nat} {r : Request}

theorem cacheAt_yields {Q : Cache → Machine → Prop} (h : ∀ c, m.caches[i]? = some c → Q c m) :
    Yields Q (cacheAt i m) := by
  apply Ends.get_bind
  cases hc : m.caches[i]? with
  | none => trivial
  | some c => exact h c hc

theorem neighbour_yields {Q : Cache → Machine → Prop}
    (h : ∀ d, j ≠ i → m.caches[j]? = some d → Q d m) : Yields Q (neighbour i j m) := by
  refine Ends.get_bind (Yields.attempt fun d hd => ?_)
  unfold neighbour? at hd
  split at hd
  · cases hd
  · rename_i hne
    cases hj : m.caches[j]? with
    | none =>
      rw [hj] at hd
      cases hd
    | some d' =>
      rw [hj] at hd
      cases hd
      exact h d hne hj

theorem freshId_yields {Q : Nat → Machine → Prop}
    (h : Q m.nextId { m with nextId := m.nextId + 1 }) : Yields Q (freshId m) :=
  Ends.get_bind (Ends.bind (Yields.attempt_add h))

variable {Q : Unit → Machine → Prop}

theorem sendToMemory_yields
    (h : Q () (m.accepting { r with readyAt := m.memory.cycle + m.memory.latency })) :
    Yields Q (sendToMemory r m) :=
  Ends.get_bind (Ends.bind (Yields.attempt_add h))

theorem acceptFill_yields {Q : Cache → Machine → Prop} {c : Cache}
    (h : Q { c with fills := c.fills.push { r with readyAt := c.cycle + c.latency } } m) :
    Yields Q (attempt (c.acceptFill r) m) := by
  refine Yields.attempt fun c' hc' => ?_
  unfold Cache.acceptFill Cache.arrival Word.add at hc'
  split at hc' <;> cases hc'
  exact h

theorem acceptLookup_yields {Q : Cache → Machine → Prop} {c : Cache}
    (h : Q { c with lookups := c.lookups.push { r with readyAt := c.cycle + c.latency } } m) :
    Yields Q (attempt (c.acceptLookup r) m) := by
  refine Yields.attempt fun c' hc' => ?_
  unfold Cache.acceptLookup Cache.arrival Word.add at hc'
  split at hc' <;> cases hc'
  exact h

theorem handFill_yields (h : ∀ d, j ≠ i → m.caches[j]? = some d →
    Q () (m.put j { d with fills := d.fills.push { r with readyAt := d.cycle + d.latency } })) :
    Yields Q (handFill i j r m) :=
  Ends.bind (neighbour_yields fun d hne hd => Ends.bind (acceptFill_yields (h d hne hd)))

theorem handDown_yields (h : ∀ d, j ≠ i → m.caches[j]? = some d →
    Q () (m.put j { d with lookups := d.lookups.push { r with readyAt := d.cycle + d.latency } })) :
    Yields Q (handDown i j r m) :=
  Ends.bind (neighbour_yields fun d hne hd => Ends.bind (acceptLookup_yields (h d hne hd)))

/-! Loops. -/

/-- Ready requests leave a queue one by one. The invariant may speak of the number that may still
leave; where none is ready it has to hold of none. -/
theorem drain_yields {take? : Cache → Option (Request × Cache)} {one : Request → Action Unit}
    {I : Nat → Machine → Prop}
    (hstop : ∀ n m c, I n m → m.caches[i]? = some c → take? c = none → I 0 m)
    (hone : ∀ n m c r c', I (n + 1) m → m.caches[i]? = some c → take? c = some (r, c') →
      Yields (fun _ => I n) (one r (m.put i c'))) (n : Nat) (h : I n m) :
    Yields (fun _ => I 0) (drain i take? one n m) := by
  induction n generalizing m with
  | zero => exact h
  | succ n ih =>
    refine Ends.bind (cacheAt_yields fun c hc => ?_)
    cases htake : take? c with
    | none => exact hstop _ m c h hc htake
    | some taken => exact Ends.bind (setCache_ends (Ends.seq (hone n m c _ _ h hc htake) fun _ _ => ih))

theorem answerReady_yields {I : Machine → Prop}
    (hone : ∀ m r memory, I m → m.memory.take? = some (r, memory) →
      Yields (fun _ => I) (memoryOne r { m with memory })) (n : Nat) (h : I m) :
    Yields (fun _ => I) (answerReady n m) := by
  induction n generalizing m with
  | zero => exact h
  | succ n ih =>
    apply Ends.get_bind
    cases htake : m.memory.take? with
    | none => exact h
    | some taken => exact Ends.modify_bind (Ends.seq (hone m _ _ h htake) fun _ _ => ih)

end Machine

end CacheHierarchy
