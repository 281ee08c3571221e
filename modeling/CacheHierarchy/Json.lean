import CacheHierarchy.Decimal.Layout
import CacheHierarchy.Text.Hex

/-!
# JSON

Statistics are written as JSON, on one line or indented by two spaces. Members of an object keep the
order in which they are given.
-/

namespace CacheHierarchy

/-- A JSON value, as far as statistics need it. -/
inductive Json
  | nat (n : Nat)
  | float (x : Float)
  | str (s : String)
  | arr (elements : List Json)
  | obj (members : List (String × Json))
  deriving Inhabited

namespace Json

/-- A character inside a string literal. Quotes, backslashes and control characters are written as
escapes. -/
def escapeChar (c : Char) : List Char :=
  if c = '"' then ['\\', '"']
  else if c = '\\' then ['\\', '\\']
  else if c = '\n' then ['\\', 'n']
  else if c = '\r' then ['\\', 'r']
  else if c = '\t' then ['\\', 't']
  else if c = '\x08' then ['\\', 'b']
  else if c = '\x0c' then ['\\', 'f']
  else if c.toNat < 32 then
    let digits := Nat.toDigits 16 c.toNat
    ['\\', 'u'] ++ List.replicate (4 - digits.length) '0' ++ digits
  else [c]

def quoted (s : String) : String :=
  "\"" ++ String.ofList (s.toList.flatMap escapeChar) ++ "\""

def openBrace : String := "\x7b"

def closeBrace : String := "\x7d"

mutual

def compact : Json → String
  | nat n => toString n
  | float x => Decimal.statisticsLayout.render x
  | str s => quoted s
  | arr elements => "[" ++ ",".intercalate (compactElements elements) ++ "]"
  | obj members => openBrace ++ ",".intercalate (compactMembers members) ++ closeBrace

/-- The elements of an array, each on one line. -/
def compactElements : List Json → List String
  | [] => []
  | element :: rest => element.compact :: compactElements rest

/-- The members of an object, each on one line. -/
def compactMembers : List (String × Json) → List String
  | [] => []
  | (key, value) :: rest => (quoted key ++ ":" ++ value.compact) :: compactMembers rest

end

def lineStart (depth : Nat) : String := "\n" ++ String.ofList (List.replicate (2 * depth) ' ')

/-- Parts between brackets, each on a line of its own one level deeper; nothing but the brackets if
there are none. -/
def block (depth : Nat) (opening closing : String) (parts : List String) : String :=
  if parts.isEmpty then opening ++ closing
  else
    opening ++ lineStart (depth + 1) ++ ("," ++ lineStart (depth + 1)).intercalate parts ++
      lineStart depth ++ closing

mutual

/-- The value over several lines, nested two spaces deeper at each level. -/
def indentedAt (depth : Nat) : Json → String
  | arr elements => block depth "[" "]" (indentedElements (depth + 1) elements)
  | obj members => block depth openBrace closeBrace (indentedMembers (depth + 1) members)
  | nat n => toString n
  | float x => Decimal.statisticsLayout.render x
  | str s => quoted s

/-- The elements of an array at a nesting depth. -/
def indentedElements (depth : Nat) : List Json → List String
  | [] => []
  | element :: rest => element.indentedAt depth :: indentedElements depth rest

/-- The members of an object at a nesting depth. -/
def indentedMembers (depth : Nat) : List (String × Json) → List String
  | [] => []
  | (key, value) :: rest =>
    (quoted key ++ ": " ++ value.indentedAt depth) :: indentedMembers depth rest

end

def indented (value : Json) : String := value.indentedAt 0

end Json

end CacheHierarchy
