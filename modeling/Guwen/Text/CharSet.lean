/-
**Sets of characters, given by ranges of code points.**

`CharSet.contains` decides membership; the tables of the character classes are values of this type.
-/

namespace Guwen

/-- **A set of characters:** closed ranges of code points, in any order. -/
abbrev CharSet := List (Nat × Nat)

namespace CharSet

/-- A character that lies in one of the ranges. -/
def contains (s : CharSet) (c : Char) : Bool :=
  s.any fun range => range.1 ≤ c.toNat && c.toNat ≤ range.2

end CharSet

end Guwen
