import CacheHierarchy.Toml.Draft
import CacheHierarchy.Toml.MomentTable
import CacheHierarchy.Toml.Numeral
import CacheHierarchy.Toml.Quoted

/-!
# Reading TOML

A document is read statement by statement, each on lines of its own. A reader takes what it reads
from the start of a text and gives back what follows, or gives up; a document that is not read to
its end is no document. Arrays and inline tables may be nested to a fixed depth, and dotted keys
have a largest number of parts.
-/

namespace CacheHierarchy.Toml

/-- A reader gives what it read and what follows it. -/
abbrev Reader (α : Type) := List Char → Option (α × List Char)

/-- The largest number of parts of a dotted key, and of brackets around a value. -/
def nestingLimit : Nat := 79

/-- The character may stand in a key without quotes. -/
def isBareKeyChar (c : Char) : Bool := c.isAlphanum || c == '_' || c == '-'

def keyPart? (text : List Char) : Option (String × List Char) :=
  let bare := text.takeWhile isBareKeyChar
  if bare.isEmpty then lineString? text
  else some (String.ofList bare, text.dropWhile isBareKeyChar)

/-- A key of at most `parts` parts with points between them, and the blanks around it. -/
def keyPath? : Nat → Reader (List String)
  | 0, _ => none
  | parts + 1, text => do
    let (key, rest) ← keyPart? (skipBlanks text)
    match skipBlanks rest with
    | '.' :: rest =>
      let (path, rest) ← keyPath? parts rest
      return (key :: path, rest)
    | rest => return ([key], rest)

/-- The character may stand in a number, a date, a time or a word. -/
def isScalarChar (c : Char) : Bool :=
  c.isAlphanum || c == '_' || c == '+' || c == '-' || c == '.' || c == ':'

/-- The characters of a scalar. A blank may stand between a date and a time of day. -/
def scalarText (text : List Char) : List Char × List Char :=
  let word := text.takeWhile isScalarChar
  let rest := text.dropWhile isScalarChar
  match Date.ofText? word, rest with
  | some (_, []), ' ' :: c :: more =>
    if c.isDigit then
      (word ++ ' ' :: (c :: more).takeWhile isScalarChar, (c :: more).dropWhile isScalarChar)
    else (word, rest)
  | _, _ => (word, rest)

/-- The value that the characters of a scalar stand for. -/
def scalarOf? (word : List Char) : Option Value :=
  if word = ['t', 'r', 'u', 'e'] then some (.boolean true)
  else if word = ['f', 'a', 'l', 's', 'e'] then some (.boolean false)
  else ((integer? word).map .integer).or <| ((float? word).map .float).or <|
    (Moment.ofText? word).map .moment

def scalar? : Reader Value
  | text@('"' :: _) => (string? text).map fun (s, rest) => (.string s, rest)
  | text@('\'' :: _) => (string? text).map fun (s, rest) => (.string s, rest)
  | text =>
    let (word, rest) := scalarText text
    (scalarOf? word).map fun v => (v, rest)

/-- The elements of an array and its closing bracket. A comma may follow the last element. -/
def elements? (value? : Reader Value) (text : List Char) : Option (List Value × List Char) :=
  match skipGap false text with
  | ']' :: rest => some ([], rest)
  | start => do
    let (v, rest) ← value? start
    match skipGap false rest with
    | ']' :: rest => return ([v], rest)
    | ',' :: rest =>
      if _ : rest.length < text.length then
        let (vs, rest) ← elements? value? rest
        return (v :: vs, rest)
      else none
    | _ => none
termination_by text.length

def assignment? (value? : Reader Value) : Reader (List String × Value) := fun text => do
  let (path, rest) ← keyPath? nestingLimit text
  let (v, rest) ← value? (skipBlanks (← after? '=' rest))
  return ((path, v), rest)

/-- The assignments of an inline table, of which there is at least one, and its closing brace. -/
def assignments? (value? : Reader Value) (text : List Char) :
    Option (List (List String × Value) × List Char) := do
  let (a, rest) ← assignment? value? text
  match skipBlanks rest with
  | '\x7d' :: rest => return ([a], rest)
  | ',' :: rest =>
    if _ : rest.length < text.length then
      let (more, rest) ← assignments? value? rest
      return (a :: more, rest)
    else none
  | _ => none
termination_by text.length

/-- The entries of an inline table and its closing brace. -/
def inlineEntries? (value? : Reader Value) (text : List Char) : Option (Table × List Char) :=
  match skipBlanks text with
  | '\x7d' :: rest => some ([], rest)
  | start => do
    let (found, rest) ← assignments? value? start
    return (← inlineTable? found, rest)

/-- A value inside at most `depth` more brackets. -/
def value? : Nat → Reader Value
  | 0, '[' :: _ => none
  | 0, '\x7b' :: _ => none
  | depth + 1, '[' :: rest =>
    (elements? (value? depth) rest).map fun (vs, rest) => (.array vs, rest)
  | depth + 1, '\x7b' :: rest =>
    (inlineEntries? (value? depth) rest).map fun (entries, rest) => (.table entries, rest)
  | _, text => scalar? text

/-- A statement, without what may follow it on its line. -/
def statement? : Reader Statement
  | '[' :: '[' :: rest => do
    let (path, rest) ← keyPath? nestingLimit rest
    return (.appending path, ← after? ']' (← after? ']' rest))
  | '[' :: rest => do
    let (path, rest) ← keyPath? nestingLimit rest
    return (.opening path, ← after? ']' rest)
  | text => do
    let ((path, v), rest) ← assignment? (value? nestingLimit) text
    return (.assignment path v, rest)

/-- The statement of the lines at the start of a text, unless the first line is blank. -/
def line? (text : List Char) : Option (Option Statement × List Char) :=
  match finishLine? text with
  | some rest => some (none, rest)
  | none => do
    let (found, rest) ← statement? (skipBlanks text)
    return (some found, ← finishLine? rest)

def statements? (text : List Char) : Option (List Statement) :=
  if text.isEmpty then some []
  else do
    let (found, rest) ← line? text
    if _ : rest.length < text.length then
      return found.toList ++ (← statements? rest)
    else none
termination_by text.length

/-- A text without the mark that shows the byte order, which may stand in front once. -/
def dropByteOrderMark : List Char → List Char
  | '\ufeff' :: rest => rest
  | text => text

def Table.ofText? (text : String) : Option Table := do
  let t ← Draft.tableOf? (← statements? (dropByteOrderMark text.toList))
  t.resolve?

end CacheHierarchy.Toml
