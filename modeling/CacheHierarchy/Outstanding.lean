import CacheHierarchy.Fault

/-!
# Outstanding accesses

The table of the accesses that the core has issued and that are not done, in the order of their
issue. An access that misses in a first-level cache is marked with that cache and the line it
waits for. A later access to the same line at the same cache finds the mark and is merged into the
outstanding miss in place of a second one; if it is a write, the outstanding access is serviced as
a write from then on.

Marks are by line, not by byte: two misses on one line would both be sent down, and the second
fill would find the line installed.
-/

namespace CacheHierarchy

/-- The first-level cache in which an access missed and the line it waits for. -/
structure MissMark where
  owner : Nat
  line : Nat
  deriving DecidableEq, Repr, Inhabited

structure OutstandingAccess where
  id : Nat
  addr : Nat
  /-- The kind to service it as: a write once a write was merged into it. -/
  kind : AccessKind
  mark : Option MissMark := none
  deriving DecidableEq, Repr, Inhabited

structure Outstanding where
  entries : List OutstandingAccess := []
  deriving DecidableEq, Repr, Inhabited

/-- The first entry that satisfies `p`, changed by `f`. -/
def modifyFirst {α : Type} (p : α → Bool) (f : α → α) : List α → List α
  | [] => []
  | a :: rest => if p a then f a :: rest else a :: modifyFirst p f rest

namespace Outstanding

def length (t : Outstanding) : Nat := t.entries.length

def isEmpty (t : Outstanding) : Bool := t.entries.isEmpty

/-- The oldest entry with this number. -/
def get? (t : Outstanding) (id : Nat) : Option OutstandingAccess :=
  t.entries.find? fun entry => entry.id == id

def contains (t : Outstanding) (id : Nat) : Bool := t.entries.any fun entry => entry.id == id

/-- The kind that an access is to be serviced as. -/
def kindOf? (t : Outstanding) (id : Nat) : Option AccessKind := (t.get? id).map (·.kind)

/-- A new access, which must not be in the table. -/
def insert (t : Outstanding) (id addr : Nat) (kind : AccessKind) : Except Fault Outstanding :=
  if t.contains id then .error (.registeredTwice id)
  else .ok ⟨t.entries ++ [{ id := id, addr, kind }]⟩

/-- The access missed in the cache `owner` and waits for `line`. An access that is not in the
table is left out. -/
def markMiss (t : Outstanding) (id owner line : Nat) : Outstanding :=
  ⟨modifyFirst (fun entry => entry.id == id)
    (fun entry => { entry with mark := some { owner, line } }) t.entries⟩

/-- The oldest access that waits for `line` at the cache `owner`. -/
def findMiss? (t : Outstanding) (owner line : Nat) : Option OutstandingAccess :=
  t.entries.find? fun entry => entry.mark == some { owner, line }

/-- Merges a new access into the oldest miss that waits for the same line at the same cache, and
names that miss. A write makes it a write. -/
def merge? (t : Outstanding) (owner line : Nat) (kind : AccessKind) :
    Option (Nat × Outstanding) :=
  (t.findMiss? owner line).map fun miss =>
    (miss.id,
      if kind.isWrite then
        ⟨modifyFirst (fun entry => entry.id == miss.id)
          (fun entry => { entry with kind := .write }) t.entries⟩
      else t)

/-- The oldest entry with this number and the table without it. -/
def remove? (t : Outstanding) (id : Nat) : Option (OutstandingAccess × Outstanding) :=
  (t.get? id).map fun entry => (entry, ⟨t.entries.eraseP fun entry => entry.id == id⟩)

/-- The numbers of the accesses that are not done, in the order of their issue. -/
def ids (t : Outstanding) : List Nat := t.entries.map OutstandingAccess.id

theorem contains_iff {t : Outstanding} {id : Nat} : t.contains id = true ↔ id ∈ t.ids := by
  simp [contains, ids]

theorem insert_eq_ok_iff {t t' : Outstanding} {id addr : Nat} {kind : AccessKind} :
    t.insert id addr kind = .ok t' ↔
      id ∉ t.ids ∧ t' = ⟨t.entries ++ [{ id := id, addr, kind }]⟩ := by
  rw [← contains_iff]
  unfold insert
  by_cases h : t.contains id = true <;> simp [h, eq_comm]

end Outstanding

end CacheHierarchy
