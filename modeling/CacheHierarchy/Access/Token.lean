import CacheHierarchy.Access

/-!
# Reading the kind of an access

A demand kind has a number, a letter and one or two words, in any mixture of upper and lower case
letters. Case is that of ASCII: no other letter has a counterpart here.
-/

namespace CacheHierarchy

namespace AccessKind

/-- The lower-case words that name a kind. Only the demand kinds have any. -/
def words : AccessKind → List String
  | read => ["0", "r", "read"]
  | write => ["1", "w", "write"]
  | instFetch => ["2", "i", "ifetch", "inst_fetch"]
  | writeBack => []
  | check => []

/-- The demand kind that a word names, upper and lower case alike. -/
def ofWord? (word : List Char) : Option AccessKind :=
  demandKinds.find? fun kind => kind.words.contains (String.ofList (word.map Char.toLower))

def unknownWord (word : List Char) : String :=
  "unsupported access type '" ++ String.ofList word ++ "', expected one of: 0/r, 1/w, 2/i"

end AccessKind

end CacheHierarchy
