import CacheHierarchy.Toml.Value

/-!
# Putting a document together

A document is written as a sequence of headers and assignments. A header opens a table, or one more
element of a list of tables, and the assignments below it go into that table. A path names a table
through the tables above it and through the last element of a list of tables, and tables on the way
that do not exist come into being.

What may be added to a table depends on how it came into being. A table that was only on the way to
a header may get a header of its own, once. A table that was on the way to an assignment may get
more assignments of that form. Everything else is closed: no key is written twice.
-/

namespace CacheHierarchy.Toml

inductive Origin
  | opened
  | passed
  | dotted
  deriving DecidableEq, Repr, Inhabited

/-- What stands under a key of an unfinished document. -/
inductive Node
  | value (v : Value)
  | table (origin : Origin) (entries : List (String × Node))
  | tables (elements : List (List (String × Node)))
  deriving Inhabited

abbrev Entries := List (String × Node)

namespace Entries

/-- The entries with a node under a key, in place of the one there or behind all others. -/
def put (key : String) (node : Node) : Entries → Entries
  | [] => [(key, node)]
  | (k, n) :: rest => if k = key then (key, node) :: rest else (k, n) :: put key node rest

/-- Putting a node changes what one key leads to and nothing else. -/
theorem lookup_put (key : String) (node : Node) (entries : Entries) (other : String) :
    (entries.put key node).lookup other =
      if other = key then some node else List.lookup other entries := by
  have lookup_cons (k : String) (n : Node) (rest : Entries) :
      List.lookup other ((k, n) :: rest) =
        if other = k then some n else List.lookup other rest := by
    by_cases h : other = k
    · simp [h]
    · simp [List.lookup_cons, h, beq_false_of_ne h]
  induction entries with
  | nil => simp only [put, lookup_cons]
  | cons entry rest ih =>
    obtain ⟨k, n⟩ := entry
    by_cases hk : k = key
    · subst hk
      simp only [put, if_true, lookup_cons]
      split <;> rfl
    · simp only [put, if_neg hk, lookup_cons, ih]
      by_cases h : other = k
      · subst h
        simp [hk]
      · simp [h]

/-- The entries with a node under a key, behind all others. -/
def putLast (key : String) (node : Node) (entries : Entries) : Entries :=
  entries.filter (fun (k, _) => k != key) ++ [(key, node)]

/-- Some entries changed into others, knowing how their table came into being. -/
abbrev Change := Origin → Entries → Option Entries

/-- A change at the end of a path, walking as far as a header does: through any table, and through
the last element of a list of tables. -/
def atHeader (change : Change) : List String → Change
  | [], origin, entries => change origin entries
  | key :: path, _, entries =>
    match entries.lookup key with
    | none => do
      let inner ← atHeader change path .passed []
      return entries.put key (.table .passed inner)
    | some (.table origin inner) => do
      let inner ← atHeader change path origin inner
      return entries.put key (.table origin inner)
    | some (.tables (last :: earlier)) => do
      let last ← atHeader change path .opened last
      return entries.put key (.tables (last :: earlier))
    | some _ => none

/-- A change at the end of a path, walking as far as an assignment does: not into a table with a
header. -/
def atAssignment (change : Change) : List String → Change
  | [], origin, entries => change origin entries
  | key :: path, _, entries =>
    match entries.lookup key with
    | none => do
      let inner ← atAssignment change path .dotted []
      return entries.put key (.table .dotted inner)
    | some (.table .opened _) => none
    | some (.table origin inner) => do
      let inner ← atAssignment change path origin inner
      return entries.put key (.table origin inner)
    | some (.tables (last :: earlier)) => do
      let last ← atAssignment change path .opened last
      return entries.put key (.tables (last :: earlier))
    | some _ => none

/-- A table under a key gets its header. One that was on the way to a header before takes its place
behind the tables that have theirs already. -/
def openTable (key : String) : Change := fun _ entries =>
  match entries.lookup key with
  | none => some (entries.put key (.table .opened []))
  | some (.table .passed inner) => some (entries.putLast key (.table .opened inner))
  | some _ => none

/-- A list of tables under a key gets one more element. -/
def openElement (key : String) : Change := fun _ entries =>
  match entries.lookup key with
  | none => some (entries.put key (.tables [[]]))
  | some (.tables elements) => some (entries.put key (.tables ([] :: elements)))
  | some _ => none

/-- A value goes under a key that is not taken. The table has to have come into being in the way
that the length of the path says. -/
def insertNew (direct : Bool) (key : String) (v : Value) : Change := fun origin entries =>
  if direct = (origin == .dotted) then none
  else match entries.lookup key with
    | none => some (entries.put key (.value v))
    | some _ => none

/-- A value is assigned to a path from the table that the assignment stands in. -/
def assign (path : List String) (v : Value) : Change := fun origin entries =>
  match path.getLast? with
  | none => none
  | some key =>
    let above := path.dropLast
    atAssignment (insertNew above.isEmpty key v) above origin entries

end Entries

mutual

def Node.finish : Node → Value
  | .value v => v
  | .table _ entries => .table (finishEntries entries)
  | .tables elements => .array (finishElements elements).reverse

def finishEntries : List (String × Node) → List (String × Value)
  | [] => []
  | (key, node) :: rest => (key, node.finish) :: finishEntries rest

/-- The finished elements of a list of tables, in the order in which they are kept. -/
def finishElements : List (List (String × Node)) → List Value
  | [] => []
  | entries :: rest => .table (finishEntries entries) :: finishElements rest

end

inductive Statement
  | opening (path : List String)
  /-- The header of one more element of a list of tables. -/
  | appending (path : List String)
  /-- A value for a path from the table that is open. -/
  | assignment (path : List String) (v : Value)
  deriving Inhabited

structure Draft where
  entries : Entries := []
  current : List String := []

namespace Draft

/-- A change at the end of a path from the top of the document. -/
def change (d : Draft) (path : List String) (change : Entries.Change) : Option Draft := do
  return { d with entries := ← Entries.atHeader change path .opened d.entries }

/-- A header at a path, where `add` puts what it opens. -/
def header (d : Draft) (path : List String) (add : String → Entries.Change) : Option Draft :=
  match path.getLast? with
  | none => none
  | some key => (d.change path.dropLast (add key)).map fun d => { d with current := path }

def step (d : Draft) : Statement → Option Draft
  | .opening path => d.header path Entries.openTable
  | .appending path => d.header path Entries.openElement
  | .assignment path v => d.change d.current (Entries.assign path v)

def tableOf? (statements : List Statement) : Option Table :=
  (statements.foldlM step {}).map fun d => finishEntries d.entries

end Draft

/-- The table that assignments put together, as they stand between braces. -/
def inlineTable? (assignments : List (List String × Value)) : Option Table :=
  Draft.tableOf? (assignments.map fun (path, v) => .assignment path v)

end CacheHierarchy.Toml
