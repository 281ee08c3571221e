import CacheHierarchy.Machine.Basic

/-!
# How a step ends

`Ends Q E result` says of a result that it is a value and a state with `Q`, or a fault and a state
with `E`. A statement about a step is taken apart with one lemma for each of the operations that
steps are made of.
-/

namespace CacheHierarchy

variable {σ α β : Type} {Q : α → σ → Prop} {E : Fault → σ → Prop} {s : σ}

/-- A result is good, or the fault is an expected one. -/
def Ends (Q : α → σ → Prop) (E : Fault → σ → Prop) : EStateM.Result Fault σ α → Prop
  | .ok a s => Q a s
  | .error fault s => E fault s

instance {result : EStateM.Result Fault σ α} [∀ a s, Decidable (Q a s)]
    [∀ fault s, Decidable (E fault s)] : Decidable (Ends Q E result) :=
  match result with
  | .ok a s => inferInstanceAs (Decidable (Q a s))
  | .error fault s => inferInstanceAs (Decidable (E fault s))

namespace Ends

theorem mono {Q' : α → σ → Prop} {E' : Fault → σ → Prop} {result : EStateM.Result Fault σ α}
    (h : Ends Q E result) (hQ : ∀ a s, Q a s → Q' a s) (hE : ∀ fault s, E fault s → E' fault s) :
    Ends Q' E' result := by
  cases result with
  | ok a s => exact hQ a s h
  | error fault s => exact hE fault s h

theorem meet {Q' : α → σ → Prop} {E' : Fault → σ → Prop} {result : EStateM.Result Fault σ α}
    (h : Ends Q E result) (h' : Ends Q' E' result) :
    Ends (fun a s => Q a s ∧ Q' a s) (fun fault s => E fault s ∧ E' fault s) result := by
  cases result with
  | ok a s => exact ⟨h, h'⟩
  | error fault s => exact ⟨h, h'⟩

theorem bind {x : EStateM Fault σ β} {f : β → EStateM Fault σ α}
    (h : Ends (fun b s => Ends Q E (f b s)) E (x s)) : Ends Q E ((x >>= f) s) := by
  change Ends Q E (EStateM.bind x f s)
  unfold EStateM.bind
  cases hx : x s with
  | ok b s =>
    rw [hx] at h
    exact h
  | error fault s =>
    rw [hx] at h
    exact h

/-- One step ends in `P`, and every state with `P` goes on to end in `Q`. -/
theorem seq {P : β → σ → Prop} {x : EStateM Fault σ β} {f : β → EStateM Fault σ α}
    (hx : Ends P E (x s)) (hf : ∀ b s, P b s → Ends Q E (f b s)) : Ends Q E ((x >>= f) s) :=
  bind (hx.mono hf fun _ _ => id)

theorem pure {a : α} (h : Q a s) : Ends Q E ((Pure.pure a : EStateM Fault σ α) s) := h

theorem get_bind {f : σ → EStateM Fault σ α} (h : Ends Q E (f s s)) :
    Ends Q E ((get >>= f) s) := h

theorem set_bind {s' : σ} {x : PUnit → EStateM Fault σ α} (h : Ends Q E (x ⟨⟩ s')) :
    Ends Q E ((set s' >>= x) s) := h

theorem of_modify {f : σ → σ} {Q : PUnit → σ → Prop} (h : Q ⟨⟩ (f s)) :
    Ends Q E ((modify f : EStateM Fault σ PUnit) s) := h

theorem modify_bind {f : σ → σ} {x : PUnit → EStateM Fault σ α} (h : Ends Q E (x ⟨⟩ (f s))) :
    Ends Q E ((modify f >>= x) s) := h

theorem attempt_ok {x : Except Fault α} {a : α} (hx : x = .ok a) (h : Q a s) :
    Ends Q E (attempt x s) := by
  rw [hx]
  exact h

theorem attempt_error {x : Except Fault α} {fault : Fault} (hx : x = .error fault)
    (h : E fault s) : Ends Q E (attempt x s) := by
  rw [hx]
  exact h

theorem attempt_add_of_lt {Q : Nat → σ → Prop} {a b : Nat} (h : a + b < wordLimit → Q (a + b) s)
    (hE : wordLimit ≤ a + b → E .sumOverflow s) : Ends Q E (attempt (Word.add a b) s) := by
  by_cases hlt : a + b < wordLimit
  · exact attempt_ok (Word.add_eq_ok_iff.2 ⟨hlt, rfl⟩) (h hlt)
  · refine attempt_error ?_ (hE (Nat.le_of_not_lt hlt))
    rw [Word.add, if_neg hlt]

theorem attempt_add {Q : Nat → σ → Prop} {a b : Nat} (h : Q (a + b) s)
    (hE : wordLimit ≤ a + b → E .sumOverflow s) : Ends Q E (attempt (Word.add a b) s) :=
  attempt_add_of_lt (fun _ => h) hE

/-- A loop over a list keeps an invariant that each of its steps keeps. The invariant may speak
of the elements that are still to come. -/
theorem forM {γ : Type} {I : List γ → σ → Prop} {f : γ → EStateM Fault σ PUnit}
    (hstep : ∀ a rest s, I (a :: rest) s → Ends (fun _ => I rest) E (f a s)) :
    ∀ {l : List γ} {s : σ}, I l s → Ends (fun _ => I []) E (l.forM f s)
  | [], _, h => h
  | a :: rest, s, h => by
    change Ends (fun _ => I []) E ((f a >>= fun _ => rest.forM f) s)
    exact seq (hstep a rest s h) fun _ _ h' => forM hstep h'

end Ends

end CacheHierarchy
