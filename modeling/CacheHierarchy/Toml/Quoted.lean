import CacheHierarchy.Text.Numeral
import CacheHierarchy.Toml.Spacing

/-!
# Strings

A string stands between double quotes, where a backslash starts an escape, or between single
quotes, where nothing is an escape. Either may be tripled, and then the string may hold line ends,
which are read as a newline each, and up to two quotes in a row; a line end directly behind the
opening quotes does not count, and up to two quotes directly before the closing ones do. In a
tripled double-quoted string a backslash at the end of a line swallows all blanks and line ends
that follow.
-/

namespace CacheHierarchy.Toml

/-- The character that a one-letter escape stands for. -/
def shortEscape? : Char → Option Char
  | 'b' => some '\x08'
  | 't' => some '\t'
  | 'n' => some '\n'
  | 'f' => some '\x0c'
  | 'r' => some '\r'
  | '"' => some '"'
  | '\\' => some '\\'
  | _ => none

/-- The character whose code point the hexadecimal digits give. -/
def codePoint? (digits : List Char) : Option Char := do
  let values ← digits.mapM Text.hexDigit?
  let code := values.foldl (fun code digit => 16 * code + digit) 0
  if code.isValidChar then some (Char.ofNat code) else none

/-- If a string ends at the start of this text: the quotes that still belong to the string, and what
follows the closing ones. -/
def closing? (quote : Char) (tripled : Bool) (text : List Char) : Option (List Char × List Char) :=
  let quotes := (text.takeWhile (· == quote)).length
  if tripled then
    if quotes < 3 then none
    else
      let kept := min (quotes - 3) 2
      some (List.replicate kept quote, text.drop (kept + 3))
  else if quotes = 0 then none
  else some ([], text.drop 1)

/-- One more character in front of what was read of a string. -/
def pushFront (c : Char) (read : Option (List Char × List Char)) : Option (List Char × List Char) :=
  read.map fun (content, rest) => (c :: content, rest)

/-- The content of a double-quoted string up to its closing quotes, and what follows them. The text
may start among blanks that an escaped line end swallows. -/
def basicContent? (tripled swallowing : Bool) (text : List Char) :
    Option (List Char × List Char) :=
  match closing? '"' tripled text with
  | some found => some found
  | none =>
    match text with
    | [] => none
    | '\n' :: rest =>
      if !tripled then none
      else if swallowing then basicContent? tripled true rest
      else pushFront '\n' (basicContent? tripled false rest)
    | '\r' :: '\n' :: rest =>
      if !tripled then none
      else if swallowing then basicContent? tripled true rest
      else pushFront '\n' (basicContent? tripled false rest)
    | '\\' :: 'u' :: a :: b :: c :: d :: rest => do
      pushFront (← codePoint? [a, b, c, d]) (basicContent? tripled false rest)
    | '\\' :: 'U' :: a :: b :: c :: d :: e :: f :: g :: h :: rest => do
      pushFront (← codePoint? [a, b, c, d, e, f, g, h]) (basicContent? tripled false rest)
    | '\\' :: c :: rest =>
      if tripled && (afterNewline? (skipBlanks (c :: rest))).isSome then
        basicContent? tripled true (c :: rest)
      else do
        pushFront (← shortEscape? c) (basicContent? tripled false rest)
    | c :: rest =>
      if swallowing && isBlank c then basicContent? tripled true rest
      else if isPrintable c && c != '\\' then pushFront c (basicContent? tripled false rest)
      else none

/-- The content of a single-quoted string up to its closing quotes, and what follows them. -/
def literalContent? (tripled : Bool) (text : List Char) : Option (List Char × List Char) :=
  match closing? '\'' tripled text with
  | some found => some found
  | none =>
    match text with
    | [] => none
    | '\n' :: rest => if tripled then pushFront '\n' (literalContent? tripled rest) else none
    | '\r' :: '\n' :: rest =>
      if tripled then pushFront '\n' (literalContent? tripled rest) else none
    | c :: rest => if isPrintable c then pushFront c (literalContent? tripled rest) else none

/-- A text without the line end at its start, if there is one. -/
def dropNewline (text : List Char) : List Char := (afterNewline? text).getD text

/-- The string at the start of a text between single quote marks of either kind. -/
def lineString? : List Char → Option (String × List Char)
  | '"' :: rest => (basicContent? false false rest).map fun (s, rest) => (String.ofList s, rest)
  | '\'' :: rest => (literalContent? false rest).map fun (s, rest) => (String.ofList s, rest)
  | _ => none

def string? : List Char → Option (String × List Char)
  | '"' :: '"' :: '"' :: rest =>
    (basicContent? true false (dropNewline rest)).map fun (s, rest) => (String.ofList s, rest)
  | '\'' :: '\'' :: '\'' :: rest =>
    (literalContent? true (dropNewline rest)).map fun (s, rest) => (String.ofList s, rest)
  | text => lineString? text

end CacheHierarchy.Toml
