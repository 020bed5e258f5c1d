/-
LiveQuery/Text/Digit.lean

Decimal digits of all scripts (Unicode general category `Nd`).  They come in runs of ten
consecutive code points, so the table holds the zero of each run.  A number of too many digits is
not read.  `readInt?` reads an integer the way a person may type it.  Hexadecimal digits are those
of ASCII.
-/
import LiveQuery.Text.Blank

namespace LiveQuery

namespace Text

/-- The code points of the digits zero. -/
def digitZeros : List Nat :=
  [0x30, 0x660, 0x6F0, 0x7C0, 0x966, 0x9E6, 0xA66, 0xAE6, 0xB66, 0xBE6, 0xC66, 0xCE6, 0xD66,
   0xDE6, 0xE50, 0xED0, 0xF20, 0x1040, 0x1090, 0x17E0, 0x1810, 0x1946, 0x19D0, 0x1A80, 0x1A90,
   0x1B50, 0x1BB0, 0x1C40, 0x1C50, 0xA620, 0xA8D0, 0xA900, 0xA9D0, 0xA9F0, 0xAA50, 0xABF0,
   0xFF10, 0x104A0, 0x10D30, 0x11066, 0x110F0, 0x11136, 0x111D0, 0x112F0, 0x11450, 0x114D0,
   0x11650, 0x116C0, 0x11730, 0x118E0, 0x11950, 0x11C50, 0x11D50, 0x11DA0, 0x16A60, 0x16AC0,
   0x16B50, 0x1D7CE, 0x1D7D8, 0x1D7E2, 0x1D7EC, 0x1D7F6, 0x1E140, 0x1E2F0, 0x1E950, 0x1FBF0]

/-- The value of a decimal digit. -/
def digitValue? (c : Char) : Option Nat :=
  (digitZeros.find? fun z => z ≤ c.toNat && c.toNat < z + 10).map (c.toNat - ·)

/-- A decimal digit of any script. -/
def isDigit (c : Char) : Bool := (digitValue? c).isSome

/-- The number that a run of digits writes; other characters count as zero. -/
def digitsValue (ds : Text) : Nat :=
  ds.foldl (fun n d => 10 * n + (digitValue? d).getD 0) 0

/-- The most digits that a number is read from. -/
def maxDigits : Nat := 4300

/-- The number that a run of digits writes, zeros at its head being digits too; a run that is too
long is refused with its length. -/
def number (ds : Text) : Except Nat Nat :=
  if ds.length ≤ maxDigits then .ok (digitsValue ds) else .error ds.length

/-- One of the ten ASCII digits. -/
def isAsciiDigit (c : Char) : Bool := '0' ≤ c && c ≤ '9'

/-- The value of a hexadecimal digit. -/
def hexValue? (c : Char) : Option Nat :=
  if '0' ≤ c && c ≤ '9' then some (c.toNat - '0'.toNat)
  else if 'a' ≤ c && c ≤ 'f' then some (c.toNat - 'a'.toNat + 10)
  else if 'A' ≤ c && c ≤ 'F' then some (c.toNat - 'A'.toNat + 10)
  else none

/-- Digits in which a single underscore may stand between two of them. -/
def groupedDigits? : Text → Option Text
  | [] => none
  | [d] => if isDigit d then some [d] else none
  | d :: e :: rest =>
    if !isDigit d then none
    else if e = '_' then (groupedDigits? rest).map (d :: ·)
    else (groupedDigits? (e :: rest)).map (d :: ·)

/-- The number that grouped digits write. -/
def readGrouped? (t : Text) : Option Nat := (groupedDigits? t).bind fun ds => (number ds).toOption

/-- An integer: spaces around it are skipped, a sign may stand before the digits, and the digits
may be grouped by single underscores. -/
def readInt? (t : Text) : Option Int :=
  match dropEndWhile isSpace (t.dropWhile isSpace) with
  | '-' :: ds => (readGrouped? ds).map fun n => -(n : Int)
  | '+' :: ds => (readGrouped? ds).map fun n => (n : Int)
  | ds => (readGrouped? ds).map fun n => (n : Int)

end Text

end LiveQuery
