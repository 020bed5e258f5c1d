/-
LiveQuery/Text/Utf8.lean

Decoding of UTF-8.  A byte that cannot start a character, or a start whose continuation is wrong
or missing, refuses the input; the refusal says which bytes are at fault and why.
-/
import LiveQuery.Text.Basic

namespace LiveQuery

namespace Utf8

/-- Why bytes are not UTF-8. -/
inductive Reason
  /-- No character starts with this byte. -/
  | start
  /-- A byte that should continue a character does not. -/
  | continuation
  /-- The input ends inside a character. -/
  | ending
  deriving DecidableEq, Repr

/-- The bytes at fault, counted from 0: `count` of them from `position` on. -/
structure Refusal where
  position : Nat
  count : Nat
  byte : Nat
  reason : Reason
  deriving DecidableEq, Repr

/-- The wording of a reason. -/
def Reason.message : Reason → Text
  | .start => "invalid start byte".toList
  | .continuation => "invalid continuation byte".toList
  | .ending => "unexpected end of data".toList

/-- The wording of a refusal: a single byte is shown, several are named by their positions. -/
def Refusal.message (r : Refusal) : Text :=
  "'utf-8' codec can't decode ".toList ++
    (if r.count = 1 then
      "byte 0x".toList ++ Text.hex 2 r.byte ++ " in position ".toList ++ Text.ofNat r.position
    else
      "bytes in position ".toList ++ Text.ofNat r.position ++ ['-'] ++
        Text.ofNat (r.position + r.count - 1)) ++
    ": ".toList ++ r.reason.message

/-- How many continuation bytes follow a start byte, with the range of the first of them; `none`
for a byte that starts nothing.  The range keeps out overlong forms, surrogates and everything
beyond U+10FFFF. -/
def lead (b : Nat) : Option (Nat × Nat × Nat) :=
  if b < 0x80 then some (0, 0x80, 0xBF)
  else if b < 0xC2 then none
  else if b < 0xE0 then some (1, 0x80, 0xBF)
  else if b = 0xE0 then some (2, 0xA0, 0xBF)
  else if b = 0xED then some (2, 0x80, 0x9F)
  else if b < 0xF0 then some (2, 0x80, 0xBF)
  else if b = 0xF0 then some (3, 0x90, 0xBF)
  else if b < 0xF4 then some (3, 0x80, 0xBF)
  else if b = 0xF4 then some (3, 0x80, 0x8F)
  else none

/-- Where the decoder stands inside a character: the start byte and its position, the value
read so far, how many bytes it has read, how many are owed, and the range of the next one. -/
structure Open where
  first : Nat
  position : Nat
  value : Nat
  read : Nat
  owed : Nat
  low : Nat
  high : Nat

/-- Decodes the bytes from `position` on; `inside` is the character that is still open. -/
def decodeFrom (position : Nat) (inside : Option Open) : List Nat → Except Refusal Text
  | [] =>
    match inside with
    | none => .ok []
    | some o => .error ⟨o.position, o.read, o.first, .ending⟩
  | b :: rest =>
    match inside with
    | none =>
      match lead b with
      | none => .error ⟨position, 1, b, .start⟩
      | some (0, _, _) => (decodeFrom (position + 1) none rest).map (Char.ofNat b :: ·)
      | some (owed, low, high) =>
        decodeFrom (position + 1)
          (some ⟨b, position, b % 2 ^ (6 - owed), 1, owed, low, high⟩) rest
    | some o =>
      if b < o.low || o.high < b then .error ⟨o.position, o.read, o.first, .continuation⟩
      else
        let value := o.value * 64 + (b - 0x80)
        if o.owed ≤ 1 then (decodeFrom (position + 1) none rest).map (Char.ofNat value :: ·)
        else
          decodeFrom (position + 1)
            (some { o with value, read := o.read + 1, owed := o.owed - 1,
                           low := 0x80, high := 0xBF }) rest

/-- The text that the bytes write. -/
def decode (bytes : List Nat) : Except Refusal Text := decodeFrom 0 none bytes

/-- The bytes after a byte order mark, if they begin with one. -/
def unmarked : List Nat → List Nat
  | 0xEF :: 0xBB :: 0xBF :: rest => rest
  | bytes => bytes

end Utf8

end LiveQuery
