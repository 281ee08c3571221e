import CacheHierarchy.Toml.Moment

/-!
# TOML values

A document is a table, and a table holds values under keys. Keys are looked up by name. The entries
stand in the order in which they came into being, a table with a header at the place of its header.
-/

namespace CacheHierarchy.Toml

inductive Value
  | boolean (b : Bool)
  | integer (n : Int)
  | float (x : Float)
  | string (s : String)
  | moment (m : Moment)
  | array (elements : List Value)
  | table (entries : List (String × Value))
  deriving Inhabited

/-- The entries of a table, each under its key. -/
abbrev Table := List (String × Value)

def Table.get? (t : Table) (key : String) : Option Value := t.lookup key

@[simp] theorem Table.get?_nil (key : String) : Table.get? [] key = none := rfl

theorem Table.get?_cons (k : String) (v : Value) (t : Table) (key : String) :
    Table.get? ((k, v) :: t) key = if key = k then some v else Table.get? t key := by
  by_cases h : key = k
  · subst h
    simp [Table.get?]
  · have : (key == k) = false := by simpa using h
    simp [Table.get?, List.lookup_cons, h, this]

end CacheHierarchy.Toml
