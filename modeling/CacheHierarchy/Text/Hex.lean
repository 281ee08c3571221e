/-!
# Hexadecimal numerals

Addresses are written in base sixteen, lower case, without leading zeros.
-/

namespace CacheHierarchy.Text

/-- The hexadecimal digits of a number, most significant first, without a mark in front. -/
def hexDigits (n : Nat) : String := String.ofList (Nat.toDigits 16 n)

/-- A number in base sixteen behind the mark `0x`. -/
def hex (n : Nat) : String := "0x" ++ hexDigits n

/-- A text moved to the right edge of a column of the given width; a wider text is left alone. -/
def rightAligned (width : Nat) (text : String) : String :=
  String.ofList (List.replicate (width - text.length) ' ') ++ text

end CacheHierarchy.Text
