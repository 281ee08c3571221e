/-!
# Gated queues

A gated queue holds items in the order of their arrival, each with the cycle from which it may be
processed. Only the head is ever looked at: a head that is not ready holds back all that stands
behind it, so arrival order is never broken. Nothing is refused and no queue is ever full.

A queue is a list, head first. `popReady?` takes the head if it is ready.
-/

namespace CacheHierarchy

/-- Items that may be processed from a given cycle on. -/
class Timed (α : Type) where
  readyAt : α → Nat

namespace Timed

variable {α : Type} [Timed α]

def isReady (now : Nat) (item : α) : Bool := readyAt item ≤ now

/-- The cycles left until the item is ready, none if it is. -/
def remaining (now : Nat) (item : α) : Nat := readyAt item - now

theorem isReady_iff {now : Nat} {item : α} : isReady now item = true ↔ readyAt item ≤ now := by
  simp [isReady]

end Timed

/-- Items in the order of their arrival, of which only the head may leave. -/
structure GatedQueue (α : Type) where
  items : List α := []
  deriving Repr, DecidableEq

namespace GatedQueue

variable {α : Type}

instance : Inhabited (GatedQueue α) := ⟨{}⟩

def length (q : GatedQueue α) : Nat := q.items.length

def isEmpty (q : GatedQueue α) : Bool := q.items.isEmpty

def push (q : GatedQueue α) (item : α) : GatedQueue α := ⟨q.items ++ [item]⟩

def append (q : GatedQueue α) (items : List α) : GatedQueue α := ⟨q.items ++ items⟩

/-- The head, ready or not, and the queue without it. -/
def pop? (q : GatedQueue α) : Option (α × GatedQueue α) :=
  match q.items with
  | [] => none
  | item :: rest => some (item, ⟨rest⟩)

/-- The head and the queue without it, if the head is ready. -/
def popReady? [Timed α] (now : Nat) (q : GatedQueue α) : Option (α × GatedQueue α) :=
  match q.items with
  | [] => none
  | item :: rest => if Timed.isReady now item then some (item, ⟨rest⟩) else none

/-- The items that satisfy `p`, ready or not, and the queue of the others. Both keep their
order. -/
def takeWhere (p : α → Bool) (q : GatedQueue α) : List α × GatedQueue α :=
  (q.items.filter p, ⟨q.items.filter fun item => !p item⟩)

def map (f : α → α) (q : GatedQueue α) : GatedQueue α := ⟨q.items.map f⟩

@[simp] theorem items_push (q : GatedQueue α) (item : α) :
    (q.push item).items = q.items ++ [item] := rfl

@[simp] theorem items_append (q : GatedQueue α) (items : List α) :
    (q.append items).items = q.items ++ items := rfl

@[simp] theorem items_map (f : α → α) (q : GatedQueue α) : (q.map f).items = q.items.map f := rfl

@[simp] theorem takeWhere_fst (p : α → Bool) (q : GatedQueue α) :
    (q.takeWhere p).1 = q.items.filter p := rfl

@[simp] theorem takeWhere_snd_items (p : α → Bool) (q : GatedQueue α) :
    (q.takeWhere p).2.items = q.items.filter fun item => !p item := rfl

@[simp] theorem length_map (f : α → α) (q : GatedQueue α) : (q.map f).length = q.length := by
  simp [length]

/-- An item that leaves by itself was the ready head. -/
theorem popReady?_eq_some_iff [Timed α] {now : Nat} {q rest : GatedQueue α} {item : α} :
    q.popReady? now = some (item, rest) ↔
      q.items = item :: rest.items ∧ Timed.isReady now item = true := by
  obtain ⟨items⟩ := q
  obtain ⟨left⟩ := rest
  cases items with
  | nil => simp [popReady?]
  | cons head tail =>
    by_cases h : Timed.isReady now head = true
    · simp only [popReady?, h, ↓reduceIte, Option.some.injEq, Prod.mk.injEq, mk.injEq,
        List.cons.injEq]
      constructor
      · rintro ⟨rfl, rfl⟩
        exact ⟨⟨rfl, rfl⟩, h⟩
      · rintro ⟨⟨rfl, rfl⟩, -⟩
        exact ⟨rfl, rfl⟩
    · simp only [popReady?, h, Bool.false_eq_true, ↓reduceIte, List.cons.injEq, false_iff,
        reduceCtorEq]
      rintro ⟨⟨rfl, -⟩, hready⟩
      exact h hready

theorem sublist_of_popReady? [Timed α] {now : Nat} {q rest : GatedQueue α} {item : α}
    (h : q.popReady? now = some (item, rest)) : rest.items.Sublist q.items := by
  rw [(popReady?_eq_some_iff.1 h).1]
  exact List.sublist_cons_self item rest.items

end GatedQueue

end CacheHierarchy
