import CacheHierarchy.Proofs.Execution.Ends

/-!
# Two steps side by side

`Lockstep A R x y` compares the results of two steps, on the left and on the right, that may change
states of different types. If both are values, they and their states are related by `R`. The left
step may fail alone, in a fault with `A`; the right one fails only where the left one does. Like a
statement about how one step ends, one about two steps is taken apart with one lemma for each of the
operations that steps are made of.

Pure operations that may be faults are compared by `Agree`: both are values or both are faults.
-/

namespace CacheHierarchy

variable {σ τ α β γ δ : Type} {A : Fault → Prop} {R : α → σ → β → τ → Prop} {s : σ} {t : τ}

/-- Two results are related, or the left one is a fault that the right step need not share. -/
def Lockstep (A : Fault → Prop) (R : α → σ → β → τ → Prop) :
    EStateM.Result Fault σ α → EStateM.Result Fault τ β → Prop
  | .ok a s, .ok b t => R a s b t
  | .ok _ _, .error _ _ => False
  | .error fault _, .ok _ _ => A fault
  | .error _ _, .error _ _ => True

def Agree (P : α → β → Prop) : Except Fault α → Except Fault β → Prop
  | .ok a, .ok b => P a b
  | .error _, .error _ => True
  | _, _ => False

namespace Agree

variable {P : α → β → Prop}

theorem refl {x : Except Fault α} {P : α → α → Prop} (h : ∀ a, P a a) : Agree P x x := by
  cases x with
  | ok a => exact h a
  | error fault => trivial

theorem bind {x : Except Fault γ} {y : Except Fault δ} {S : γ → δ → Prop}
    {f : γ → Except Fault α} {g : δ → Except Fault β} (h : Agree S x y)
    (hfg : ∀ c d, S c d → Agree P (f c) (g d)) : Agree P (x >>= f) (y >>= g) := by
  cases x <;> cases y
  · trivial
  · exact h.elim
  · exact h.elim
  · exact hfg _ _ h

theorem map {x : Except Fault γ} {y : Except Fault δ} {S : γ → δ → Prop} {f : γ → α}
    {g : δ → β} (h : Agree S x y) (hP : ∀ c d, S c d → P (f c) (g d)) :
    Agree P (x.map f) (y.map g) := by
  cases x <;> cases y
  · trivial
  · exact h
  · exact h
  · exact hP _ _ h

theorem bind_same {x : Except Fault γ} {f : γ → Except Fault α} {g : γ → Except Fault β}
    (hfg : ∀ c, Agree P (f c) (g c)) : Agree P (x >>= f) (x >>= g) :=
  bind (S := (· = ·)) (refl fun _ => rfl) fun c _ h => h ▸ hfg c

theorem map_same {x : Except Fault γ} {f : γ → α} {g : γ → β} (hP : ∀ c, P (f c) (g c)) :
    Agree P (x.map f) (x.map g) :=
  map (S := (· = ·)) (refl fun _ => rfl) fun c _ h => h ▸ hP c

end Agree

namespace Lockstep

theorem mono {B : Fault → Prop} {R' : α → σ → β → τ → Prop} {x : EStateM.Result Fault σ α}
    {y : EStateM.Result Fault τ β} (h : Lockstep A R x y)
    (hR : ∀ a s b t, R a s b t → R' a s b t) (hA : ∀ fault, A fault → B fault) :
    Lockstep B R' x y := by
  cases x <;> cases y
  · exact hR _ _ _ _ h
  · exact h
  · exact hA _ h
  · trivial

/-- What is known of the left result alone can be used. -/
theorem and_left {Q : α → σ → Prop} {E : Fault → σ → Prop} {x : EStateM.Result Fault σ α}
    {y : EStateM.Result Fault τ β} (h : Lockstep A R x y) (hx : Ends Q E x) :
    Lockstep (fun fault => A fault ∧ ∃ s, E fault s) (fun a s b t => R a s b t ∧ Q a s) x y := by
  cases x <;> cases y
  · exact ⟨h, hx⟩
  · exact h
  · exact ⟨h, _, hx⟩
  · trivial

theorem bind {x : EStateM Fault σ γ} {f : γ → EStateM Fault σ α} {y : EStateM Fault τ δ}
    {g : δ → EStateM Fault τ β}
    (h : Lockstep A (fun c s d t => Lockstep A R (f c s) (g d t)) (x s) (y t)) :
    Lockstep A R ((x >>= f) s) ((y >>= g) t) := by
  change Lockstep A R (EStateM.bind x f s) (EStateM.bind y g t)
  unfold EStateM.bind
  cases hx : x s <;> cases hy : y t <;> rw [hx, hy] at h
  · exact h
  · exact h.elim
  · rename_i d t'
    dsimp only
    cases g d t' with
    | ok b t'' => exact h
    | error fault t'' => trivial
  · trivial

/-- One step on each side relates the states by `P`, and related states go on in lockstep. -/
theorem seq {P : γ → σ → δ → τ → Prop} {x : EStateM Fault σ γ} {f : γ → EStateM Fault σ α}
    {y : EStateM Fault τ δ} {g : δ → EStateM Fault τ β} (hxy : Lockstep A P (x s) (y t))
    (hfg : ∀ c s d t, P c s d t → Lockstep A R (f c s) (g d t)) :
    Lockstep A R ((x >>= f) s) ((y >>= g) t) :=
  bind (hxy.mono hfg fun _ => id)

theorem left {x : EStateM Fault σ γ} {f : γ → EStateM Fault σ α}
    {y : EStateM.Result Fault τ β}
    (h : Ends (fun c s => Lockstep A R (f c s) y) (fun fault _ => A fault) (x s)) :
    Lockstep A R ((x >>= f) s) y := by
  change Lockstep A R (EStateM.bind x f s) y
  unfold EStateM.bind
  cases hx : x s <;> rw [hx] at h
  · exact h
  · cases y with
    | ok b t => exact h
    | error fault t => trivial

theorem throw {fault fault' : Fault} :
    Lockstep A R ((MonadExcept.throw fault : EStateM Fault σ α) s)
      ((MonadExcept.throw fault' : EStateM Fault τ β) t) := trivial

theorem throw_left {fault : Fault} (h : A fault) {y : EStateM.Result Fault τ β} :
    Lockstep A R ((MonadExcept.throw fault : EStateM Fault σ α) s) y := by
  cases y with
  | ok b t => exact h
  | error fault t => trivial

theorem get_bind {f : σ → EStateM Fault σ α} {g : τ → EStateM Fault τ β}
    (h : Lockstep A R (f s s) (g t t)) : Lockstep A R ((get >>= f) s) ((get >>= g) t) := h

theorem set_bind {s' : σ} {t' : τ} {x : PUnit → EStateM Fault σ α} {y : PUnit → EStateM Fault τ β}
    (h : Lockstep A R (x ⟨⟩ s') (y ⟨⟩ t')) :
    Lockstep A R ((set s' >>= x) s) ((set t' >>= y) t) := h

theorem modify_bind {f : σ → σ} {g : τ → τ} {x : PUnit → EStateM Fault σ α}
    {y : PUnit → EStateM Fault τ β} (h : Lockstep A R (x ⟨⟩ (f s)) (y ⟨⟩ (g t))) :
    Lockstep A R ((modify f >>= x) s) ((modify g >>= y) t) := h

theorem attempt {P : α → β → Prop} {x : Except Fault α} {y : Except Fault β} (h : Agree P x y)
    (hR : ∀ a b, P a b → R a s b t) :
    Lockstep A R (CacheHierarchy.attempt x s) (CacheHierarchy.attempt y t) := by
  cases x <;> cases y
  · trivial
  · exact h.elim
  · exact h.elim
  · exact hR _ _ h

theorem attempt_same {R : α → σ → α → τ → Prop} {x : Except Fault α} (hR : ∀ a, R a s a t) :
    Lockstep A R (CacheHierarchy.attempt x s) (CacheHierarchy.attempt x t) :=
  attempt (Agree.refl (P := (· = ·)) fun _ => rfl) fun _ _ h => h ▸ hR _

theorem forM {P : σ → τ → Prop} {f : γ → EStateM Fault σ PUnit} {g : γ → EStateM Fault τ PUnit} :
    ∀ {l : List γ} {s : σ} {t : τ},
      (∀ a ∈ l, ∀ s t, P s t → Lockstep A (fun _ s _ t => P s t) (f a s) (g a t)) →
      P s t → Lockstep A (fun _ s _ t => P s t) (l.forM f s) (l.forM g t)
  | [], _, _, _, h => h
  | a :: rest, s, t, hstep, h => by
    change Lockstep A _ ((f a >>= fun _ => rest.forM f) s) ((g a >>= fun _ => rest.forM g) t)
    refine seq (hstep a List.mem_cons_self s t h) fun _ s _ t h' => ?_
    exact forM (fun b hb => hstep b (List.mem_cons_of_mem _ hb)) h'

end Lockstep

end CacheHierarchy
