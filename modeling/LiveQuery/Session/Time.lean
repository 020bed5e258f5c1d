/-
LiveQuery/Session/Time.lean

Time, as much of it as a session needs: instants and spans are one type with addition,
subtraction and an order.  Programs run with doubles; a theorem may take exact numbers instead,
of which every double that is a time is one.
-/
import LiveQuery.Decimal.Shortest

namespace LiveQuery

/-- A type of times, in seconds. -/
class Time (τ : Type) where
  zero : τ
  add : τ → τ → τ
  sub : τ → τ → τ
  /-- Whether the first time is not after the second. -/
  le : τ → τ → Bool
  /-- A number of thousandths of a second. -/
  ofMillis : Int → τ
  /-- A number that a span does not exceed in twentieths of a second. -/
  slices : τ → Nat
  /-- A span in thousandths of a second, with one digit after the point. -/
  millisText : τ → Text
  /-- A span in seconds, as short as it can be. -/
  secondsText : τ → Text

namespace Time

variable {τ : Type} [Time τ]

/-- The later of two times, the first one where they are equal. -/
def later (s t : τ) : τ := if le t s then s else t

/-- The earlier of two times, the first one where they are equal. -/
def earlier (s t : τ) : τ := if le s t then s else t

/-- Whether a span is empty. -/
def isZero (t : τ) : Bool := le t zero && le zero t

end Time

/-- The bits of a double. -/
def Binary64.ofFloat (x : Float) : Binary64 := ⟨x.toBits⟩

/-- Doubles as times. -/
instance : Time Float where
  zero := 0
  add := (· + ·)
  sub := (· - ·)
  le s t := decide (s ≤ t)
  ofMillis n := Float.ofInt n / 1000
  slices t := (t * 20).ceil.toUInt64.toNat
  millisText t := (Binary64.ofFloat (t * 1000)).toFixed 1
  secondsText t := (Binary64.ofFloat t).toText ⟨"nan".toList, "inf".toList⟩

/-- A number with one digit after the point, a half going to the even digit. -/
def tenthsText (t : Rat) : Text :=
  let tenths := roundHalfEven (10 * t.num.natAbs) t.den
  (if t < 0 then ['-'] else []) ++ Text.ofNat (tenths / 10) ++ '.' :: Text.ofNat (tenths % 10)

/-- A number as a fraction in lowest terms, a whole number without a denominator. -/
def ratioText (t : Rat) : Text :=
  Text.ofInt t.num ++ (if t.den = 1 then [] else '/' :: Text.ofNat t.den)

/-- Exact numbers as times. -/
instance : Time Rat where
  zero := 0
  add := (· + ·)
  sub := (· - ·)
  le s t := decide (s ≤ t)
  ofMillis n := n / 1000
  slices t := (t * 20).ceil.toNat
  millisText t := tenthsText (t * 1000)
  secondsText := ratioText

end LiveQuery
