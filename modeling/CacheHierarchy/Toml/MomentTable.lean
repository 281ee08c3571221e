import CacheHierarchy.Toml.Value

/-!
# Tables that stand for moments

A moment may also be written as a table: its text stands as a string under a reserved key, and what
follows in the table means nothing. Only the first key of a table says whether the table stands for
a moment. One that does has to hold a moment, or the whole document is spoilt. The document itself
is a table and never a moment.
-/

namespace CacheHierarchy.Toml

/-- The key under which a table holds the moment that it stands for. -/
def momentKey : String := "$__toml_private_datetime"

def Table.isMoment : Table → Bool
  | (key, _) :: _ => key == momentKey
  | [] => false

/-- The moment that a table holds under the reserved key. -/
def Table.moment? (t : Table) : Option Moment :=
  match t.get? momentKey with
  | some (.string s) => Moment.ofText? s.toList
  | _ => none

mutual

/-- A value with a moment in place of every table that stands for one. -/
def Value.resolve? : Value → Option Value
  | .array elements => (resolveElements? elements).map .array
  | .table entries =>
    if Table.isMoment entries then (Table.moment? entries).map .moment
    else (resolveEntries? entries).map .table
  | v => some v

/-- The elements of an array, each with moments in place of tables that stand for them. -/
def resolveElements? : List Value → Option (List Value)
  | [] => some []
  | v :: rest => do return (← v.resolve?) :: (← resolveElements? rest)

/-- The entries of a table, each with moments in place of tables that stand for them. -/
def resolveEntries? : List (String × Value) → Option (List (String × Value))
  | [] => some []
  | (key, v) :: rest => do return (key, ← v.resolve?) :: (← resolveEntries? rest)

end

/-- The entries of a document with moments in place of tables that stand for them. -/
def Table.resolve? (document : Table) : Option Table := resolveEntries? document

end CacheHierarchy.Toml
