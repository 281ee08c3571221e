import CacheHierarchy.Machine.Stages
import CacheHierarchy.Proofs.Execution.Yields

/-!
# Watching a machine

A watch looks at one aspect of each cache and listens for a few kinds of events. A step is unseen by
it if it leaves that aspect of every cache as it was and records no such event. What is said in terms
of the aspect and of these events outlasts unseen steps, so that an invariant need only be shown to
outlast the others.

Most steps only touch a part of a cache that a watch overlooks, at some positions or at all of them.
-/

namespace CacheHierarchy

def Event.isRoutine : Event → Bool
  | .lookedUp .. | .sentDown .. | .sentUp .. | .evicted .. | .wroteBack .. => false
  | _ => true

/-- One aspect of each cache, and some kinds of events. -/
structure Watch (α : Type) where
  view : Nat → Cache → α
  hears : Event → Bool
  deaf : ∀ event, event.isRoutine = true → hears event = false

namespace Watch

variable {α β γ : Type} (w : Watch α)

def OverlooksTags (i : Nat) : Prop :=
  ∀ (c : Cache) (tags : TagArray), w.view i { c with tags } = w.view i c

def OverlooksLookups (i : Nat) : Prop :=
  ∀ (c : Cache) (lookups : GatedQueue Request), w.view i { c with lookups } = w.view i c

def OverlooksFills (i : Nat) : Prop :=
  ∀ (c : Cache) (fills : GatedQueue Request), w.view i { c with fills } = w.view i c

/-- The watch overlooks what is to go down, at once or in the next cycle. -/
def OverlooksSends (i : Nat) : Prop :=
  ∀ (c : Cache) (sends writeBacks : GatedQueue Request),
    w.view i { c with sends, writeBacks } = w.view i c

def OverlooksExpected (i : Nat) : Prop :=
  ∀ (c : Cache) (expected : WriteBackLedger), w.view i { c with expected } = w.view i c

/-- The watch has seen nothing between two machines. -/
structure Same (m m' : Machine) : Prop where
  length : m'.caches.length = m.caches.length
  view : ∀ (i : Nat) (c' : Cache), m'.caches[i]? = some c' →
    ∃ c, m.caches[i]? = some c ∧ w.view i c' = w.view i c
  heard : m'.journal.filter w.hears = m.journal.filter w.hears
  /-- What was recorded stays recorded. -/
  grows : m.journal <:+ m'.journal

namespace Same

variable {w} {m m' m'' : Machine}

theorem refl (m : Machine) : w.Same m m :=
  ⟨rfl, fun _ c' hc' => ⟨c', hc', rfl⟩, rfl, List.suffix_refl _⟩

theorem trans (h : w.Same m m') (h' : w.Same m' m'') : w.Same m m'' := by
  refine ⟨h'.length.trans h.length, fun i c'' hc'' => ?_, h'.heard.trans h.heard,
    h.grows.trans h'.grows⟩
  obtain ⟨c', hc', hview'⟩ := h'.view i c'' hc''
  obtain ⟨c, hc, hview⟩ := h.view i c' hc'
  exact ⟨c, hc, hview'.trans hview⟩

/-- The caches and the journal are all that a watch attends to. -/
theorem of_eq (hcaches : m'.caches = m.caches) (hjournal : m'.journal = m.journal) :
    w.Same m m' := by
  refine ⟨by rw [hcaches], fun i c' hc' => ⟨c', hcaches ▸ hc', rfl⟩, by rw [hjournal], ?_⟩
  rw [hjournal]

theorem of_eq_cons {event : Event} (hcaches : m'.caches = m.caches)
    (hjournal : m'.journal = event :: m.journal) (hevent : w.hears event = false) :
    w.Same m m' := by
  refine ⟨by rw [hcaches], fun i c' hc' => ⟨c', hcaches ▸ hc', rfl⟩, ?_, ?_⟩
  · rw [hjournal, List.filter_cons_of_neg (by simp [hevent])]
  · rw [hjournal]
    exact List.suffix_cons _ _

theorem put {i : Nat} {c c' : Cache} (hc : m.caches[i]? = some c)
    (hview : w.view i c' = w.view i c) : w.Same m (m.put i c') := by
  refine ⟨List.length_set, fun j d hd => ?_, rfl, List.suffix_refl _⟩
  by_cases hj : j = i
  · subst hj
    rw [Machine.caches_put_self hc] at hd
    cases hd
    exact ⟨c, hc, hview⟩
  · rw [Machine.caches_put_ne _ hj] at hd
    exact ⟨d, hd, rfl⟩

theorem noted {event : Event} (hevent : w.hears event = false) : w.Same m (m.noted event) :=
  of_eq_cons rfl rfl hevent

theorem put_noted {i : Nat} {c c' : Cache} {event : Event} (hc : m.caches[i]? = some c)
    (hview : w.view i c' = w.view i c) (hevent : w.hears event = false) :
    w.Same m ((m.put i c').noted event) :=
  (put hc hview).trans (noted hevent)

end Same

/-- Unless the action stops with a fault, the watch sees nothing of it. -/
def Unseen (action : Action β) : Prop := ∀ m, Yields (fun _ => w.Same m) (action m)

variable {w}

theorem unseen_pure (b : β) : w.Unseen (pure b : Action β) := fun m => Same.refl m

theorem unseen_throw (fault : Fault) : w.Unseen (throw fault : Action β) := fun _ => trivial

theorem Unseen.bind {x : Action β} {f : β → Action γ} (hx : w.Unseen x)
    (hf : ∀ b, w.Unseen (f b)) : w.Unseen (x >>= f) := fun m =>
  Ends.seq (hx m) fun b m' h => (hf b m').mono (fun _ _ h' => h.trans h') fun _ _ _ => trivial

/-- An unseen action goes on unseen. -/
theorem Unseen.seq {m₀ m : Machine} {x : Action β} (hx : w.Unseen x) (h : w.Same m₀ m) :
    Yields (fun _ => w.Same m₀) (x m) :=
  (hx m).mono (fun _ _ h' => h.trans h') fun _ _ _ => trivial

theorem unseen_get_bind {f : Machine → Action β}
    (h : ∀ m, Yields (fun _ => w.Same m) (f m m)) : w.Unseen (get >>= f) := fun m =>
  Ends.get_bind (h m)

theorem unseen_modify {f : Machine → Machine} (hcaches : ∀ m, (f m).caches = m.caches)
    (hjournal : ∀ m, (f m).journal = m.journal) : w.Unseen (modify f : Action PUnit) := fun m =>
  Same.of_eq (hcaches m) (hjournal m)

theorem unseen_record {event : Event} (hevent : w.hears event = false) :
    w.Unseen (Machine.record event) := fun _ => Same.noted hevent

theorem unseen_routine {event : Event} (hevent : event.isRoutine = true) :
    w.Unseen (Machine.record event) := unseen_record (w.deaf event hevent)

theorem unseen_cacheAt (i : Nat) : w.Unseen (Machine.cacheAt i) := fun m =>
  Machine.cacheAt_yields fun _ _ => Same.refl m

/-- A cache is looked at, and an aspect of it changed that the watch overlooks. -/
theorem unseen_update {i : Nat} {f : Cache → Action β} (h : ∀ c m, m.caches[i]? = some c →
    Yields (fun _ => w.Same m) (f c m)) : w.Unseen (Machine.cacheAt i >>= f) := fun m =>
  Ends.bind (Machine.cacheAt_yields fun c hc => h c m hc)

theorem unseen_neighbour {i j : Nat} {f : Cache → Action β} (h : ∀ c m, j ≠ i →
    m.caches[j]? = some c → Yields (fun _ => w.Same m) (f c m)) :
    w.Unseen (Machine.neighbour i j >>= f) := fun m =>
  Ends.bind (Machine.neighbour_yields fun c hne hc => h c m hne hc)

theorem unseen_forM {f : γ → Action PUnit} (h : ∀ a, w.Unseen (f a)) (l : List γ) :
    w.Unseen (l.forM f) := by
  induction l with
  | nil => exact fun m => Same.refl m
  | cons a l ih => exact (h a).bind fun _ => ih

end Watch

end CacheHierarchy
