import CacheHierarchy.Proofs.Execution.Partway

/-!
# Within a stage

In the stage of a queue requests leave it one by one. A stage can be left after any number of them,
and what remains of it is a step of its own. So a run can be left between any two requests of a cycle,
and on the way to there nothing stops it that does not stop the cycle.
-/

namespace CacheHierarchy

section Sequences

variable {σ α β : Type} {x : EStateM Fault σ β} {f : β → EStateM Fault σ α} {s s' : σ}

theorem bind_of_ok {b : β} (h : x s = .ok b s') : (x >>= f) s = f b s' := by
  change EStateM.bind x f s = _
  rw [EStateM.bind, h]

theorem bind_of_error {fault : Fault} (h : x s = .error fault s') :
    (x >>= f) s = .error fault s' := by
  change EStateM.bind x f s = _
  rw [EStateM.bind, h]

theorem bind_congr_left {y : EStateM Fault σ β} (h : x s = y s') : (x >>= f) s = (y >>= f) s' := by
  change EStateM.bind x f s = EStateM.bind y f s'
  rw [EStateM.bind, EStateM.bind, h]

namespace Ends

variable {γ : Type} {Q : α → σ → Prop} {Q' : γ → σ → Prop} {E : Fault → σ → Prop}

theorem bind_imp {g : β → EStateM Fault σ γ} (h : Ends Q E ((x >>= f) s))
    (hfg : ∀ b s, Ends Q E (f b s) → Ends Q' E (g b s)) : Ends Q' E ((x >>= g) s) := by
  cases hx : x s with
  | ok b s' =>
    rw [bind_of_ok hx] at h ⊢
    exact hfg b s' h
  | error fault s' =>
    rw [bind_of_error hx] at h ⊢
    exact h

/-- Nothing stops a step that does not stop it with what follows. -/
theorem of_bind (h : Ends Q E ((x >>= f) s)) : Ends (fun _ _ => True) E (x s) := by
  cases hx : x s with
  | ok b s' => trivial
  | error fault s' =>
    rw [bind_of_error hx] at h
    exact h

end Ends

end Sequences

namespace Machine

variable {m : Machine} {i : Nat} {c c' : Cache} {r : Request}

theorem cacheAt_eq_ok (hc : m.caches[i]? = some c) : cacheAt i m = .ok c m := by
  have hget : (get : Action Machine) m = .ok m m := rfl
  rw [cacheAt, bind_of_ok hget, hc]
  rfl

theorem cacheAt_eq_error (hc : m.caches[i]? = none) :
    cacheAt i m = .error (.outOfRange m.caches.length i) m := by
  have hget : (get : Action Machine) m = .ok m m := rfl
  rw [cacheAt, bind_of_ok hget, hc]
  rfl

/-! ### A queue in two parts -/

section Queues

variable {queue : Cache → GatedQueue Request} {take? : Cache → Option (Request × Cache)}
  {one : Request → Action Unit}

theorem drain_of_waits (hc : m.caches[i]? = some c) (htake : take? c = none) (n : Nat) :
    drain i take? one n m = .ok () m := by
  cases n with
  | zero => rfl
  | succ n =>
    rw [drain, bind_of_ok (cacheAt_eq_ok hc), htake]
    rfl

theorem drain_of_takes (hc : m.caches[i]? = some c) (htake : take? c = some (r, c')) (n : Nat) :
    drain i take? one (n + 1) m = (one r >>= fun _ => drain i take? one n) (m.put i c') := by
  rw [drain, bind_of_ok (cacheAt_eq_ok hc), htake]
  rfl

theorem drain_add (k n : Nat) (m : Machine) :
    drain i take? one (k + n) m = (drain i take? one k >>= fun _ => drain i take? one n) m := by
  -- over all machines, as the first request is dealt with before the others are looked at
  induction k generalizing m with
  | zero =>
    rw [Nat.zero_add]
    rfl
  | succ k ih =>
    rw [Nat.succ_add]
    cases hc : m.caches[i]? with
    | none =>
      rw [drain, bind_of_error (cacheAt_eq_error hc), bind_of_error]
      rw [drain, bind_of_error (cacheAt_eq_error hc)]
    | some c =>
      cases htake : take? c with
      | none => rw [drain_of_waits hc htake, bind_of_ok (drain_of_waits hc htake (k + 1)),
          drain_of_waits hc htake]
      | some taken =>
        obtain ⟨r, c'⟩ := taken
        have hrest : (fun _ : Unit => drain i take? one (k + n)) =
            fun _ => drain i take? one k >>= fun _ => drain i take? one n :=
          funext fun _ => funext ih
        rw [drain_of_takes hc htake, hrest, ← bind_assoc,
          bind_congr_left (drain_of_takes hc htake k)]

def drainFirst (i : Nat) (queue : Cache → GatedQueue Request)
    (take? : Cache → Option (Request × Cache)) (one : Request → Action Unit) (n : Nat) :
    Action Unit := do
  drain i take? one (min n (queue (← cacheAt i)).length)

theorem exists_drainFirst_bind (i n : Nat) (queue : Cache → GatedQueue Request)
    (take? : Cache → Option (Request × Cache)) (one : Request → Action Unit) (m : Machine) :
    ∃ rest : Action Unit, (do drain i take? one (queue (← cacheAt i)).length : Action Unit) m =
      (drainFirst i queue take? one n >>= fun _ => rest) m := by
  cases hc : m.caches[i]? with
  | none =>
    refine ⟨pure (), ?_⟩
    rw [bind_of_error (cacheAt_eq_error hc), bind_of_error]
    exact bind_of_error (cacheAt_eq_error hc)
  | some c =>
    have hlength : min n (queue c).length + ((queue c).length - min n (queue c).length) =
        (queue c).length := Nat.add_sub_of_le (Nat.min_le_right ..)
    refine ⟨drain i take? one ((queue c).length - min n (queue c).length), ?_⟩
    rw [bind_of_ok (cacheAt_eq_ok hc), drainFirst, bind_assoc, bind_of_ok (cacheAt_eq_ok hc),
      ← drain_add, hlength]

end Queues

/-! ### The queue of memory in two parts -/

theorem get_eq_ok (m : Machine) : (get : Action Machine) m = .ok m m := rfl

theorem answerReady_of_waits (htake : m.memory.take? = none) (n : Nat) :
    answerReady n m = .ok () m := by
  cases n with
  | zero => rfl
  | succ n =>
    rw [answerReady, bind_of_ok (get_eq_ok m), htake]
    rfl

theorem answerReady_of_takes {memory : Memory} (htake : m.memory.take? = some (r, memory)) (n : Nat) :
    answerReady (n + 1) m = (memoryOne r >>= fun _ => answerReady n) { m with memory } := by
  rw [answerReady, bind_of_ok (get_eq_ok m), htake]
  rfl

theorem answerReady_add (k n : Nat) (m : Machine) :
    answerReady (k + n) m = (answerReady k >>= fun _ => answerReady n) m := by
  induction k generalizing m with
  | zero =>
    rw [Nat.zero_add]
    rfl
  | succ k ih =>
    rw [Nat.succ_add]
    cases htake : m.memory.take? with
    | none => rw [answerReady_of_waits htake, bind_of_ok (answerReady_of_waits htake (k + 1)),
        answerReady_of_waits htake]
    | some taken =>
      obtain ⟨r, memory⟩ := taken
      have hrest : (fun _ : Unit => answerReady (k + n)) =
          fun _ => answerReady k >>= fun _ => answerReady n :=
        funext fun _ => funext ih
      rw [answerReady_of_takes htake, hrest, ← bind_assoc,
        bind_congr_left (answerReady_of_takes htake k)]

def answerFirst (n : Nat) : Action Unit := do
  answerReady (min n (← get).memory.queue.length)

theorem exists_answerFirst_bind (n : Nat) (m : Machine) :
    ∃ rest : Action Unit, runMemory m = (answerFirst n >>= fun _ => rest) m := by
  have hlength : min n m.memory.queue.length +
      (m.memory.queue.length - min n m.memory.queue.length) = m.memory.queue.length :=
    Nat.add_sub_of_le (Nat.min_le_right ..)
  refine ⟨answerReady (m.memory.queue.length - min n m.memory.queue.length) >>= fun _ =>
    advanceMemory, ?_⟩
  rw [runMemory, bind_of_ok (get_eq_ok m), answerFirst, bind_assoc, bind_of_ok (get_eq_ok m),
    ← bind_assoc, ← bind_congr_left (answerReady_add _ _ m), hlength]

end Machine

namespace Hierarchy

/-- A stage is left after `n` requests. Other stages than those of a queue are left at once. -/
def performPart : Stage → Nat → Step Unit
  | .fill i, n => onMachine (Machine.drainFirst i Cache.fills Cache.takeFill? (Machine.fillOne i) n)
  | .send i, n => onMachine (Machine.drainFirst i Cache.sends Cache.takeSend? (Machine.sendOne i) n)
  | .lookUp i, n =>
    onMachine (Machine.drainFirst i Cache.lookups Cache.takeLookup? (Machine.lookUpOne i) n)
  | .memory, n => onMachine (Machine.answerFirst n)
  | _, _ => return

theorem onMachine_congr {action action' : Action Unit} {h : Hierarchy}
    (heq : action h.machine = action' h.machine) : onMachine action h = onMachine action' h := by
  rw [onMachine, onMachine, heq]

theorem exists_performPart_bind (stage : Stage) (n : Nat) (h : Hierarchy) :
    ∃ rest : Step Unit, performStage stage h = (performPart stage n >>= fun _ => rest) h := by
  have hmachine {action first : Action Unit}
      (hrest : ∃ rest : Action Unit, action h.machine = (first >>= fun _ => rest) h.machine) :
      ∃ rest : Step Unit, onMachine action h = (onMachine first >>= fun _ => rest) h := by
    obtain ⟨rest, heq⟩ := hrest
    exact ⟨onMachine rest, by rw [onMachine_congr heq, onMachine_bind]⟩
  cases stage with
  | fill i => exact hmachine (Machine.exists_drainFirst_bind ..)
  | send i => exact hmachine (Machine.exists_drainFirst_bind ..)
  | lookUp i => exact hmachine (Machine.exists_drainFirst_bind ..)
  | memory => exact hmachine (Machine.exists_answerFirst_bind ..)
  | release i => exact ⟨performStage (.release i), rfl⟩
  | advance i => exact ⟨performStage (.advance i), rfl⟩
  | retire => exact ⟨performStage .retire, rfl⟩
  | clock => exact ⟨performStage .clock, rfl⟩

/-- A run that is left in the next cycle after `n` stages and `k` requests of the stage that follows. -/
def runWithin (commands : List Command) (n k : Nat) : Step Unit := do
  run commands
  let h ← get
  runStages (h.stages.take n)
  match h.stages[n]? with
  | some stage => performPart stage k
  | none => return

/-- What does not stop a run in a stage does not stop it before. -/
theorem runWithin_ends {commands : List Command} {n : Nat} {h : Hierarchy}
    {Q : Unit → Hierarchy → Prop} {E : Fault → Hierarchy → Prop}
    (hends : Ends Q E (runInto commands (n + 1) h)) (k : Nat) :
    Ends (fun _ _ => True) E (runWithin commands n k h) := by
  refine hends.bind_imp fun _ s hends => Ends.get_bind ?_
  have hstages : Ends Q E (runStages (s.stages.take (n + 1)) s) := hends
  rw [List.take_add_one, runStages_append] at hstages
  refine hstages.bind_imp fun _ s' hends => ?_
  cases hstage : s.stages[n]? with
  | none => trivial
  | some stage =>
    rw [hstage, Option.toList_some, runStages_cons, runStages_nil, bind_pure_unit] at hends
    obtain ⟨rest, heq⟩ := exists_performPart_bind stage k s'
    rw [heq] at hends
    exact hends.of_bind

end Hierarchy

end CacheHierarchy
