import CacheHierarchy.Proofs.Outline.Basic
import Mathlib.Data.Set.Insert

/-!
# Labels in outline

Whoever takes an errand from a queue hands it on, or is done with it. So a cycle neither loses nor
makes an errand: the labels in the queues and among the outcomes stay the same, and only the issue
of an access adds one.
-/

namespace CacheHierarchy

namespace Outline

variable {α : Type} {p : Plan} {i b : Nat} {s : Spot} {site : Site} {e : Errand α} {o : Outline α}

def labels (o : Outline α) : Set α :=
  {a | (∃ s, ∃ e ∈ o.queue s, e.label = a) ∨ ∃ d ∈ o.done, d.label = a}

@[simp] theorem labels_alter (p : Plan) (i line : Nat) (f : LineSet → Nat → LineSet)
    (o : Outline α) : (o.alter p i line f).labels = o.labels := rfl

@[simp] theorem labels_count (i : Nat) (f : Counters → Counters) (o : Outline α) :
    (o.count i f).labels = o.labels := rfl

@[simp] theorem labels_advance (site : Site) (o : Outline α) :
    (o.advance site).labels = o.labels := rfl

@[simp] theorem labels_push (s : Spot) (e : Errand α) (o : Outline α) :
    (o.push s e).labels = insert e.label o.labels := by
  ext a
  constructor
  · rintro (⟨s', e', he', rfl⟩ | hdone)
    · by_cases hs : s' = s
      · subst hs
        rw [queue_push_self, List.mem_append, List.mem_singleton] at he'
        rcases he' with he' | rfl
        · exact .inr (.inl ⟨s', e', he', rfl⟩)
        · exact .inl rfl
      · rw [queue_push_of_ne hs] at he'
        exact .inr (.inl ⟨s', e', he', rfl⟩)
    · exact .inr (.inr hdone)
  · rintro (rfl | ⟨s', e', he', rfl⟩ | hdone)
    · exact .inl ⟨s, e, by simp, rfl⟩
    · refine .inl ⟨s', e', ?_, rfl⟩
      by_cases hs : s' = s
      · subst hs
        simp [he']
      · rwa [queue_push_of_ne hs]
    · exact .inr hdone

@[simp] theorem labels_arrive (s : Spot) (site : Site) (e : Errand α) (o : Outline α) :
    (o.arrive s site e).labels = insert e.label o.labels :=
  labels_push s _ o

@[simp] theorem labels_sendUp (e : Errand α) (o : Outline α) :
    (o.sendUp e).labels = insert e.label o.labels :=
  labels_arrive _ _ e o

theorem labels_pop {rest : List (Errand α)} (h : o.queue s = e :: rest) :
    insert e.label (o.pop s).labels = o.labels := by
  have hpush : ∀ s', ∀ e' ∈ o.queue s', e' = e ∨ e' ∈ (o.pop s).queue s' := by
    intro s' e' he'
    by_cases hs : s' = s
    · subst hs
      rw [h] at he'
      rw [queue_pop, h]
      exact List.mem_cons.1 he'
    · exact .inr (by simpa [pop, hs] using he')
  have hpop : ∀ s', ∀ e' ∈ (o.pop s).queue s', e' ∈ o.queue s' := by
    intro s' e' he'
    by_cases hs : s' = s
    · subst hs
      rw [queue_pop] at he'
      exact List.mem_of_mem_tail he'
    · simpa [pop, hs] using he'
  ext a
  constructor
  · rintro (rfl | ⟨s', e', he', rfl⟩ | hdone)
    · exact .inl ⟨s, e, by simp [h], rfl⟩
    · exact .inl ⟨s', e', hpop s' e' he', rfl⟩
    · exact .inr hdone
  · rintro (⟨s', e', he', rfl⟩ | hdone)
    · rcases hpush s' e' he' with rfl | he'
      · exact .inl rfl
      · exact .inr (.inl ⟨s', e', he', rfl⟩)
    · exact .inr (.inr hdone)

@[simp] theorem labels_overtake (i line : Nat) (o : Outline α) :
    (o.overtake i line).labels = o.labels := by
  have hlabel : ∀ e : Errand α,
      (if e.line i = line then { e with bypass := true } else e).label = e.label := by
    intro e
    split <;> rfl
  ext a
  refine or_congr (exists_congr fun s => ?_) Iff.rfl
  by_cases hs : s = .fills i
  · subst hs
    simp [overtake, hlabel]
  · simp [overtake, hs]

theorem labels_withdraw (p : Plan) (b victim : Nat) (ports : List (Side × Nat)) (o : Outline α) :
    (ports.foldl (withdrawFrom p b victim) o).labels = o.labels := by
  induction ports generalizing o with
  | nil => rfl
  | cons port rest ih =>
    rw [List.foldl_cons, ih, withdrawFrom]
    split <;> simp

/-! Dealing with an errand hands it on. -/

theorem labels_fillOne (p : Plan) (i : Nat) (e : Errand α) (o : Outline α) :
    (o.fillOne p i e).labels = insert e.label o.labels := by
  unfold fillOne
  split
  · unfold fillBelow
    split
    · exact labels_sendUp e o
    · dsimp only
      split
      · simp
      · simp [labels_withdraw]
  · unfold fillTop
    split <;> simp

theorem labels_sendOne (p : Plan) (i : Nat) (e : Errand α) (o : Outline α) :
    (o.sendOne p i e).labels = insert e.label o.labels := by
  unfold sendOne
  split <;> simp

theorem labels_lookUpOne (p : Plan) (i : Nat) (e : Errand α) (o : Outline α) :
    (o.lookUpOne p i e).labels = insert e.label o.labels := by
  unfold lookUpOne
  split
  · unfold lookUpBelow
    split <;> simp
  · unfold lookUpTop
    split
    · simp
    · split <;> simp

theorem labels_read (p : Plan) (e : Errand α) (o : Outline α) :
    (o.read p e).labels = insert e.label o.labels := by
  have hread : labels { o with reads := o.reads + 1 } = o.labels := rfl
  unfold read
  split <;> simp [hread]

/-! A stage, and so a cycle, keeps the labels. -/

theorem labels_drain {one : Errand α → Outline α → Outline α}
    (hone : ∀ e o, (one e o).labels = insert e.label o.labels) (n : Nat) (o : Outline α) :
    (o.drain s site one n).labels = o.labels := by
  induction n generalizing o with
  | zero => rfl
  | succ n ih =>
    unfold drain
    cases hnext : o.next? s site with
    | none => rfl
    | some e =>
      obtain ⟨rest, hqueue⟩ := List.head?_eq_some_iff.1 (Option.filter_eq_some_iff.1 hnext).1
      exact (ih _).trans ((hone e _).trans (labels_pop hqueue))

theorem labels_runCache (p : Plan) (i : Nat) (o : Outline α) :
    (o.runCache p i).labels = o.labels := by
  simp only [runCache, stage, labels_advance, labels_drain (labels_lookUpOne p i),
    labels_drain (labels_sendOne p i), labels_drain (labels_fillOne p i)]

theorem labels_runMachine (p : Plan) (o : Outline α) : (o.runMachine p).labels = o.labels := by
  have hcaches : ∀ l : List Nat, (l.foldl (fun o i => o.runCache p i) o).labels = o.labels := by
    intro l
    induction l generalizing o with
    | nil => rfl
    | cons i rest ih => exact (ih _).trans (labels_runCache p i o)
  simp only [runMachine, runMemory, stage, labels_advance, labels_drain (labels_read p), hcaches]

/-- What is finished is under way before it leaves and done afterwards. -/
theorem labels_retire (o : Outline α) : o.retire.labels = o.labels := by
  ext a
  constructor
  · rintro (⟨s, e, he, rfl⟩ | ⟨d, hd, rfl⟩)
    · by_cases hs : s = .finished
      · simp [retire, hs] at he
      · exact .inl ⟨s, e, by simpa [retire, hs] using he, rfl⟩
    · rcases List.mem_append.1 hd with hd | hd
      · exact .inr ⟨d, hd, rfl⟩
      · obtain ⟨e, he, rfl⟩ := List.mem_map.1 hd
        exact .inl ⟨.finished, e, he, rfl⟩
  · rintro (⟨s, e, he, rfl⟩ | ⟨d, hd, rfl⟩)
    · by_cases hs : s = .finished
      · subst hs
        exact .inr ⟨e.outcome o.now,
          List.mem_append_right _ (List.mem_map.2 ⟨e, he, rfl⟩), rfl⟩
      · exact .inl ⟨s, e, by simpa [retire, hs] using he, rfl⟩
    · exact .inr ⟨d, List.mem_append_left _ hd, rfl⟩

/-- A cycle keeps the labels. -/
theorem labels_runCycle (p : Plan) (o : Outline α) : (o.runCycle p).labels = o.labels :=
  (labels_retire _).trans (labels_runMachine p o)

theorem labels_issue (p : Plan) (label : α) (line : Nat → Nat) (top : Nat) (o : Outline α) :
    (o.issue p label line top).labels = insert label o.labels := by
  have hcounted : labels { o with inFlight := o.inFlight + 1 } = o.labels := rfl
  unfold issue
  dsimp only
  split <;> simp [hcounted]

end Outline

end CacheHierarchy
