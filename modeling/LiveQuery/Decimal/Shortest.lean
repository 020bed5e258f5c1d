/-
LiveQuery/Decimal/Shortest.lean

Decimal texts of doubles.

`shortest` finds the fewest digits that read back as the same double, and among those the digits
nearest to it.  For 1, 2, … 17 digits it looks at the two neighbours of the value on that decimal
grid, in exact arithmetic; the first grid with a neighbour in the interval of numbers that round
to the double wins.  `toText` lays the digits out, positionally or with an exponent, and
`toFixed` writes a fixed number of places.
-/
import LiveQuery.Decimal.Binary64

namespace LiveQuery

namespace Binary64

/-- A magnitude in decimal: `digits · 10 ^ exponent`. -/
structure Digits where
  digits : Nat
  exponent : Int
  deriving DecidableEq, Repr

/-- A power of ten that may be negative, as a quotient. -/
def powerOfTen (k : Int) : Nat × Nat :=
  if 0 ≤ k then (Nat.pow 10 k.toNat, 1) else (1, Nat.pow 10 (-k).toNat)

/-- The exponent of the leading decimal digit of `num / den`. -/
def leadingExponent (num den : Nat) : Int :=
  if den ≤ num then (digitCount (num / den) : Int) - 1
  else -(digitCount ((den + num - 1) / num - 1) : Int)

/-- The interval of numbers that round to `mantissa · 2 ^ exponent`, in units of
`2 ^ (exponent - 2)`: its two ends, and whether they belong to it. -/
structure Interval where
  low : Nat
  high : Nat
  closed : Bool

/-- The ends lie half-way to the two neighbouring doubles, and belong to the interval iff the
mantissa is even; below a power of two the lower neighbour is nearer. -/
def interval (mantissa : Nat) (exponent : Int) : Interval where
  low :=
    if mantissa = Nat.pow 2 52 ∧ minExponent < exponent then 4 * mantissa - 1
    else 4 * mantissa - 2
  high := 4 * mantissa + 2
  closed := mantissa % 2 == 0

/-- Whether the interval holds the quotient `num / den`, given in its units. -/
def Interval.holds (i : Interval) (num den : Nat) : Bool :=
  if i.closed then i.low * den ≤ num && num ≤ i.high * den
  else i.low * den < num && num < i.high * den

/-- The point of the grid `10 ^ k` that lies in the interval of a double and is nearest to it,
the even one where two are equally near. -/
def onGrid (mantissa : Nat) (exponent k : Int) : Option Nat :=
  let i := interval mantissa exponent
  let (tn, td) := powerOfTen k
  let (un, ud) := scaled 1 1 (exponent - 2)
  -- one unit of the interval is `ud / un` and one step of the grid `tn / td`
  let point (d : Nat) : Bool := i.holds (d * tn * un) (td * ud)
  let num := 4 * mantissa * ud * td
  let den := un * tn
  let below := num / den
  let nearest := roundHalfEven num den
  let other := if nearest = below then below + 1 else below
  if point nearest then some nearest else if point other then some other else none

/-- Tries the grids of `n`, `n + 1`, … digits. -/
def searchGrids (mantissa : Nat) (exponent leading : Int) : Nat → Nat → Digits
  | 0, n => ⟨0, leading - n⟩
  | more + 1, n =>
    let k := leading - n + 1
    match onGrid mantissa exponent k with
    | some d => ⟨d, k⟩
    | none => searchGrids mantissa exponent leading more (n + 1)

/-- The shortest digits of the magnitude `mantissa · 2 ^ exponent`. -/
def shortest (mantissa : Nat) (exponent : Int) : Digits :=
  if mantissa = 0 then ⟨0, 0⟩
  else
    let (d, n) := scaled 1 mantissa exponent
    searchGrids mantissa exponent (leadingExponent n d) 17 1

/-- How the digits of a number are laid out: positionally where the leading digit's exponent
lies from `positionalFrom` to just below `positionalBelow`, and with an exponent of at least
`exponentDigits` digits otherwise. -/
structure Layout where
  positionalFrom : Int
  positionalBelow : Int
  exponentDigits : Nat

/-- Numbers are positional from `1e-4` to below `1e16`. -/
def standardLayout : Layout := ⟨-4, 16, 2⟩

/-- Digits with the point after the one of exponent 0; there is always a digit on either
side of it. -/
def positional (ds : Text) (leading : Int) : Text :=
  if leading < 0 then
    "0.".toList ++ List.replicate (-leading - 1).toNat '0' ++ ds
  else
    let whole := leading.toNat + 1
    let fraction := ds.drop whole
    ds.take whole ++ List.replicate (whole - ds.length) '0' ++ ['.'] ++
      (if fraction.isEmpty then ['0'] else fraction)

/-- Digits with the point after the first one, and the exponent with its sign. -/
def scientific (exponentDigits : Nat) (ds : Text) (leading : Int) : Text :=
  let e := Text.ofNat leading.natAbs
  ds.take 1 ++ (if ds.length ≤ 1 then [] else '.' :: ds.drop 1) ++
    ['e', if leading < 0 then '-' else '+'] ++
    List.replicate (exponentDigits - e.length) '0' ++ e

/-- Decimal digits with the zeros at the end dropped, and one of them kept for zero. -/
def significant (n : Nat) : Text :=
  match ((Text.ofNat n).reverse.dropWhile (· = '0')).reverse with
  | [] => ['0']
  | ds => ds

/-- The shortest text of a magnitude. -/
def Layout.magnitude (l : Layout) (d : Digits) : Text :=
  let ds := significant d.digits
  let leading := if d.digits = 0 then 0 else (digitCount d.digits : Int) - 1 + d.exponent
  if l.positionalFrom ≤ leading ∧ leading < l.positionalBelow then positional ds leading
  else scientific l.exponentDigits ds leading

/-- The sign of a negative number. -/
def signText (negative : Bool) : Text := if negative then ['-'] else []

/-- The spelling of the values that no digits write. -/
structure Spelling where
  nan : Text
  infinity : Text

/-- The shortest text that reads back as the same double. -/
def toText (s : Spelling) (x : Binary64) : Text :=
  match x.decode with
  | .nan => s.nan
  | .infinite negative => signText negative ++ s.infinity
  | .finite negative m e => signText negative ++ standardLayout.magnitude (shortest m e)

/-- The value rounded to `places` digits after the point, a half going to the even digit. -/
def toFixed (places : Nat) (x : Binary64) : Text :=
  match x.decode with
  | .nan => "nan".toList
  | .infinite negative => signText negative ++ "inf".toList
  | .finite negative m e =>
    let (d, n) := scaled 1 m e
    let ds := Text.ofNat (roundHalfEven (n * Nat.pow 10 places) d)
    let ds := List.replicate (places + 1 - ds.length) '0' ++ ds
    let whole := ds.length - places
    signText negative ++ ds.take whole ++
      (if places = 0 then [] else '.' :: ds.drop whole)

end Binary64

end LiveQuery
