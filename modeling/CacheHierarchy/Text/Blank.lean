/-!
# White space

The characters with the Unicode property White_Space, as ranges of code points in ascending order.
There are 25 of them, of which six are ASCII.
-/

namespace CacheHierarchy.Text

/-- First and last code point of each run of white space. -/
def blankRanges : List (Nat × Nat) :=
  [(0x09, 0x0d), (0x20, 0x20), (0x85, 0x85), (0xa0, 0xa0), (0x1680, 0x1680), (0x2000, 0x200a),
    (0x2028, 0x2029), (0x202f, 0x202f), (0x205f, 0x205f), (0x3000, 0x3000)]

def isBlank (c : Char) : Bool :=
  blankRanges.any fun (first, last) => first ≤ c.toNat && c.toNat ≤ last

end CacheHierarchy.Text
