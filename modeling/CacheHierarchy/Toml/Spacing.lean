/-!
# Blanks, comments and line ends

Blanks are spaces and tabs. A line ends with a newline, which may have a carriage return in front.
A comment runs from a number sign to the end of its line and holds tabs and printable characters
only. Inside an array all three may stand anywhere between the elements.
-/

namespace CacheHierarchy.Toml

def isBlank (c : Char) : Bool := c == ' ' || c == '\t'

/-- The character may stand in a comment or, unescaped, in a string. -/
def isPrintable (c : Char) : Bool := c == '\t' || (32 ≤ c.toNat && c.toNat != 127)

/-- What follows the blanks at the start of a text. -/
def skipBlanks (text : List Char) : List Char := text.dropWhile isBlank

/-- What follows the comment at the start of a text, if there is one. -/
def skipComment : List Char → List Char
  | '#' :: rest => rest.dropWhile isPrintable
  | text => text

/-- What follows the line end at the start of a text. -/
def afterNewline? : List Char → Option (List Char)
  | '\n' :: rest => some rest
  | '\r' :: '\n' :: rest => some rest
  | _ => none

/-- What follows a line of which only blanks and a comment are left. The last line needs no line
end. -/
def finishLine? (text : List Char) : Option (List Char) :=
  match skipComment (skipBlanks text) with
  | [] => some []
  | rest => afterNewline? rest

/-- What follows blanks, line ends and comments. The argument says whether the text starts inside a
comment. -/
def skipGap (inComment : Bool) : List Char → List Char
  | [] => []
  | '\n' :: rest => skipGap false rest
  | '\r' :: '\n' :: rest => skipGap false rest
  | c :: rest =>
    if inComment && isPrintable c || isBlank c then skipGap inComment rest
    else if c == '#' then skipGap true rest
    else c :: rest

end CacheHierarchy.Toml
