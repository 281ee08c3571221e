import CacheHierarchy.Proofs.Execution.Runs

/-!
# Collected completions

A hierarchy never looks at the completions that wait in it. A step is framed if it does the same
whatever completions came before, and every command is. So what holds of runs in which nothing is
collected holds of those in which the core collects completions at any time.
-/

namespace CacheHierarchy

namespace Hierarchy

variable {α β : Type}

/-- The hierarchy with completions that came before. -/
def behind (earlier : List Completion) (h : Hierarchy) : Hierarchy :=
  { h with completions := earlier ++ h.completions }

def carry (earlier : List Completion) :
    EStateM.Result Fault Hierarchy α → EStateM.Result Fault Hierarchy α
  | .ok a h => .ok a (h.behind earlier)
  | .error fault h => .error fault (h.behind earlier)

def Framed (x : Step α) : Prop := ∀ earlier h, x (h.behind earlier) = carry earlier (x h)

/-- How a step ends is seen without the completions that came before. -/
theorem ends_carry {Q : α → Hierarchy → Prop} {E : Fault → Hierarchy → Prop}
    {earlier : List Completion} {result : EStateM.Result Fault Hierarchy α} :
    Ends Q E (carry earlier result) ↔
      Ends (fun a h => Q a (h.behind earlier)) (fun fault h => E fault (h.behind earlier))
        result := by
  cases result <;> rfl

namespace Framed

theorem pure (a : α) : Framed (Pure.pure a : Step α) := fun _ _ => rfl

theorem throw (fault : Fault) : Framed (MonadExcept.throw fault : Step α) := fun _ _ => rfl

theorem attempt (x : Except Fault α) : Framed (CacheHierarchy.attempt x : Step α) := by
  intro earlier h
  cases x <;> rfl

theorem onMachine (action : Action α) : Framed (Hierarchy.onMachine action) := by
  intro earlier h
  unfold Hierarchy.onMachine behind
  cases action h.machine <;> rfl

theorem of_modify {f : Hierarchy → Hierarchy}
    (hf : ∀ earlier h, f (h.behind earlier) = (f h).behind earlier) :
    Framed (modify f : Step PUnit) := by
  intro earlier h
  change EStateM.Result.ok PUnit.unit (f (h.behind earlier)) = .ok PUnit.unit _
  rw [hf]

theorem bind {x : Step α} {f : α → Step β} (hx : Framed x) (hf : ∀ a, Framed (f a)) :
    Framed (x >>= f) := by
  intro earlier h
  change EStateM.bind x f _ = carry earlier (EStateM.bind x f h)
  unfold EStateM.bind
  rw [hx earlier h]
  cases x h with
  | ok a h' => exact hf a earlier h'
  | error fault h' => rfl

/-- What is read of a hierarchy has nothing to do with its completions. -/
theorem get_bind {f : Hierarchy → Step α} (hf : ∀ h, Framed (f h))
    (hread : ∀ earlier h, f (h.behind earlier) = f h) : Framed (get >>= f) := by
  intro earlier h
  change f (h.behind earlier) (h.behind earlier) = _
  rw [hread]
  exact hf h earlier h

end Framed

theorem access_framed (addr : Nat) (kind : AccessKind) : Framed (access addr kind) := by
  unfold access
  split
  · exact .get_bind (fun _ => .onMachine _) fun _ _ => rfl
  · exact .throw _

theorem retire_framed (r : Request) : Framed (retire r) := by
  refine .get_bind (fun h => ?_) fun _ _ => rfl
  split
  · exact .throw _
  · refine (Framed.onMachine _).bind fun _ => (Framed.attempt _).bind fun _ => .of_modify fun _ _ => ?_
    simp [behind]

theorem retireReady_framed (n : Nat) : Framed (retireReady n) := by
  induction n with
  | zero => exact .pure _
  | succ n ih =>
    refine .get_bind (fun h => ?_) fun _ _ => rfl
    split
    · exact .pure _
    · exact (Framed.onMachine _).bind fun _ => (retire_framed _).bind fun _ => ih

theorem runCycle_framed : Framed runCycle := by
  refine (Framed.onMachine _).bind fun _ => .bind ?_ fun _ => ?_
  · exact .get_bind (fun _ => retireReady_framed _) fun _ _ => rfl
  · intro earlier h
    have hsum : ∀ sum : Except Fault Nat,
        (CacheHierarchy.attempt sum >>= fun cycle =>
            set { h.behind earlier with cycle } : Step Unit) (h.behind earlier) =
          carry earlier ((CacheHierarchy.attempt sum >>= fun cycle =>
            set { h with cycle } : Step Unit) h) := by
      intro sum
      cases sum <;> rfl
    exact hsum (Word.add h.cycle 1)

theorem perform_framed (command : Command) : Framed (perform command) := by
  cases command with
  | access addr kind => exact access_framed addr kind
  | cycle => exact runCycle_framed

end Hierarchy

end CacheHierarchy
