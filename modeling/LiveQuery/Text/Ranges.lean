/-
LiveQuery/Text/Ranges.lean

Sets of characters given by ranges of code points, the form in which the character properties
of this library are tabulated.
-/

namespace LiveQuery

/-- Ranges of code points, both ends included. -/
abbrev Ranges := List (Nat × Nat)

/-- Whether some range holds the code point of `c`. -/
def Ranges.has (rs : Ranges) (c : Char) : Bool :=
  rs.any fun r => r.1 ≤ c.toNat && c.toNat ≤ r.2

end LiveQuery
