/-
LiveQuery/Decimal/Binary64.lean

Double-precision numbers as bit patterns, decoded into exact integers, and the double nearest to
a decimal.

Design.  A finite double is a sign and a magnitude `mantissa · 2 ^ exponent` with
`mantissa < 2 ^ 53`; everything that has to be exact (reading, printing) is then arithmetic on
natural numbers.  Rounding happens in one place, `roundHalfEven`.
-/
import LiveQuery.Text.Basic

namespace LiveQuery

/-- A double-precision number, by its bits: sign, eleven bits of exponent, 52 of fraction. -/
structure Binary64 where
  bits : UInt64
  deriving DecidableEq, Repr, Inhabited

/-- The quotient `num / den` rounded to the nearest integer, a half to the even neighbour. -/
def roundHalfEven (num den : Nat) : Nat :=
  let q := num / den
  let twice := 2 * (num % den)
  if twice < den then q
  else if den < twice then q + 1
  else q + q % 2

namespace Binary64

/-- The parts of a double. -/
inductive Decoded
  /-- No number. -/
  | nan
  | infinite (negative : Bool)
  /-- `± mantissa · 2 ^ exponent` -/
  | finite (negative : Bool) (mantissa : Nat) (exponent : Int)
  deriving DecidableEq, Repr

/-- The least exponent: that of the subnormal numbers. -/
def minExponent : Int := -1074

/-- What the bits of a double mean. -/
def decode (x : Binary64) : Decoded :=
  let n := x.bits.toNat
  let negative := n / Nat.pow 2 63 == 1
  let exponent : Nat := n / Nat.pow 2 52 % Nat.pow 2 11
  let fraction : Nat := n % Nat.pow 2 52
  if exponent = 0 then .finite negative fraction minExponent
  else if exponent = 0x7FF then if fraction = 0 then .infinite negative else .nan
  else .finite negative (fraction + Nat.pow 2 52) ((exponent : Int) - 1075)

/-- A double from its three fields. -/
def ofFields (negative : Bool) (exponent fraction : Nat) : Binary64 :=
  ⟨UInt64.ofNat ((if negative then Nat.pow 2 63 else 0) + exponent * Nat.pow 2 52 + fraction)⟩

/-- The double that is no number. -/
def nan : Binary64 := ofFields false 0x7FF (Nat.pow 2 51)

/-- Infinity, of either sign. -/
def infinity (negative : Bool) : Binary64 := ofFields negative 0x7FF 0

/-- `num / den` over `2 ^ q`, as a quotient of natural numbers. -/
def scaled (num den : Nat) (q : Int) : Nat × Nat :=
  if 0 ≤ q then (num, den * Nat.pow 2 q.toNat) else (num * Nat.pow 2 (-q).toNat, den)

/-- The exponent at which the quotient `num / den` has 53 binary digits, or the least exponent
where that one is smaller still. -/
def exponentOf (num den : Nat) : Int :=
  let q : Int := (Nat.log2 num : Int) - Nat.log2 den - 53
  let (n, d) := scaled num den q
  max minExponent (if Nat.pow 2 53 ≤ n / d then q + 1 else q)

/-- The double nearest to `± num / den`, a tie going to the even mantissa; a value past the
greatest double becomes infinite. -/
def ofRatio (negative : Bool) (num den : Nat) : Binary64 :=
  if num = 0 then ofFields negative 0 0
  else
    let q := exponentOf num den
    let (n, d) := scaled num den q
    let m := roundHalfEven n d
    let (m, q) := if m = Nat.pow 2 53 then (Nat.pow 2 52, q + 1) else (m, q)
    if m < Nat.pow 2 52 then ofFields negative 0 m
    else
      let exponent := (q + 1075).toNat
      if 0x7FF ≤ exponent then infinity negative
      else ofFields negative exponent (m - Nat.pow 2 52)

/-- The whole part of a finite magnitude; what is not finite has none. -/
def whole (x : Binary64) : Nat :=
  match x.decode with
  | .finite _ mantissa exponent =>
    let (d, n) := scaled 1 mantissa exponent
    n / d
  | _ => 0

/-- The number of decimal digits of `n`. -/
def digitCount (n : Nat) : Nat := (Text.ofNat n).length

/-- The double nearest to the decimal `± mantissa · 10 ^ exponent`.  Decimals far outside the
range of doubles are settled without computing the power. -/
def ofDecimal (negative : Bool) (mantissa : Nat) (exponent : Int) : Binary64 :=
  if mantissa = 0 then ofFields negative 0 0
  else
    let magnitude := (digitCount mantissa : Int) + exponent
    if 310 < magnitude then infinity negative
    else if magnitude < -330 then ofFields negative 0 0
    else if 0 ≤ exponent then ofRatio negative (mantissa * Nat.pow 10 exponent.toNat) 1
    else ofRatio negative mantissa (Nat.pow 10 (-exponent).toNat)

end Binary64

end LiveQuery
