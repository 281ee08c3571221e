import CacheHierarchy.Request

/-!
# Expected write-backs

Whoever sends a write-back announces it to the receiver first. The receiver's ledger lists the
announcements not yet settled, in the order in which they came; a write-back is settled by its
number.
-/

namespace CacheHierarchy

structure WriteBackNote where
  id : Nat
  addr : Nat
  issuedAt : Nat
  deriving DecidableEq, Repr, Inhabited

def Request.note (r : Request) : WriteBackNote :=
  { id := r.id, addr := r.addr, issuedAt := r.issuedAt }

/-- The write-backs announced to one receiver and not yet settled, oldest first. -/
structure WriteBackLedger where
  notes : List WriteBackNote := []
  deriving DecidableEq, Repr, Inhabited

namespace WriteBackLedger

def length (l : WriteBackLedger) : Nat := l.notes.length

def isEmpty (l : WriteBackLedger) : Bool := l.notes.isEmpty

def announce (l : WriteBackLedger) (note : WriteBackNote) : WriteBackLedger :=
  ⟨l.notes ++ [note]⟩

/-- The oldest announcement with this number and the ledger without it. -/
def settle? (l : WriteBackLedger) (id : Nat) : Option (WriteBackNote × WriteBackLedger) :=
  match l.notes.find? fun note => note.id == id with
  | some note => some (note, ⟨l.notes.eraseP fun note => note.id == id⟩)
  | none => none

def ids (l : WriteBackLedger) : List Nat := l.notes.map WriteBackNote.id

@[simp] theorem notes_announce (l : WriteBackLedger) (note : WriteBackNote) :
    (l.announce note).notes = l.notes ++ [note] := rfl

@[simp] theorem ids_announce (l : WriteBackLedger) (note : WriteBackNote) :
    (l.announce note).ids = l.ids ++ [note.id] := by
  simp [ids]

/-- A write-back can be settled exactly if it was announced. -/
theorem settle?_eq_none_iff {l : WriteBackLedger} {id : Nat} :
    l.settle? id = none ↔ id ∉ l.ids := by
  simp only [settle?, ids, List.mem_map, not_exists, not_and]
  split
  · rename_i note h
    have hmem := List.mem_of_find?_eq_some h
    have hid := List.find?_some h
    simp only [reduceCtorEq, false_iff]
    exact fun hnone => hnone note hmem (by simpa using hid)
  · rename_i h
    simpa using h

end WriteBackLedger

end CacheHierarchy
