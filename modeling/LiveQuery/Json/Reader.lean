/-
LiveQuery/Json/Reader.lean

Reading of JSON texts.

A reader takes the text that is left and gives a value with the text left after it.  A refusal
keeps the text from the fault on, which is enough to name the position once the whole text is
known.  Besides the JSON standard the reader takes `NaN`, `Infinity` and `-Infinity`.

Design.  The characters of a string are read by recursion on the text: an escape says how many
characters it has taken, and those are passed over one by one.  Values nest, so their readers
recurse on a bound that `read` takes from the length of the text; `[` and the value after it are
two calls for one character, hence twice the length.
-/
import LiveQuery.Json.Value
import LiveQuery.Text.Digit

namespace LiveQuery

namespace Json

/-- What a text lacks, or holds wrongly, to be JSON. -/
inductive Fault
  | value
  | key
  | colon
  | comma
  | extra
  | mark
  | unterminated
  | control
  | escape
  | unit
  deriving DecidableEq, Repr

/-- The wording of a fault. -/
def Fault.message : Fault → Text
  | value => "Expecting value".toList
  | key => "Expecting property name enclosed in double quotes".toList
  | colon => "Expecting ':' delimiter".toList
  | comma => "Expecting ',' delimiter".toList
  | extra => "Extra data".toList
  | mark => "Unexpected UTF-8 BOM (decode using utf-8-sig)".toList
  | unterminated => "Unterminated string starting at".toList
  | control => "Invalid control character at".toList
  | escape => "Invalid \\escape".toList
  | unit => "Invalid \\uXXXX escape".toList

/-- A fault and the text from it on. -/
structure Refusal where
  fault : Fault
  rest : Text
  deriving DecidableEq, Repr

/-- The wording of a refusal of `whole`: the fault with its line, its column and the number of
characters before it. -/
def Refusal.message (whole : Text) (r : Refusal) : Text :=
  let position := whole.length - r.rest.length
  let before := whole.take position
  let line := before.count Text.newline + 1
  let column := (before.reverse.takeWhile (· ≠ Text.newline)).length + 1
  r.fault.message ++ ": line ".toList ++ Text.ofNat line ++ " column ".toList ++
    Text.ofNat column ++ " (char ".toList ++ Text.ofNat position ++ [')']

/-- A reader's answer: what it has read and the text left after it. -/
abbrev Read (α : Type) := Except Refusal (α × Text)

/-- A refusal at the head of `rest`. -/
def refuse {α : Type} (fault : Fault) (rest : Text) : Read α := .error ⟨fault, rest⟩

/-- The white space of JSON. -/
def isWhite (c : Char) : Bool := c = ' ' || c = '\t' || c = '\n' || c = '\r'

/-- The text without the white space at its head. -/
def skipWhite (t : Text) : Text := t.dropWhile isWhite

/-! ### Strings -/

/-- The 16-bit unit that four hexadecimal digits write. -/
def unit? (a b c d : Char) : Option Nat :=
  match Text.hexValue? a, Text.hexValue? b, Text.hexValue? c, Text.hexValue? d with
  | some a, some b, some c, some d => some (((a * 16 + b) * 16 + c) * 16 + d)
  | _, _, _, _ => none

/-- The first half of a pair of units. -/
def isHighHalf (n : Nat) : Bool := 0xD800 ≤ n && n < 0xDC00

/-- The second half of a pair of units. -/
def isLowHalf (n : Nat) : Bool := 0xDC00 ≤ n && n < 0xE000

/-- The character of a single unit; half a pair has none and is replaced. -/
def unitChar (n : Nat) : Char :=
  if isHighHalf n || isLowHalf n then '\uFFFD' else Char.ofNat n

/-- The character of a pair of units. -/
def pairChar (high low : Nat) : Char :=
  Char.ofNat (0x10000 + (high - 0xD800) * 0x400 + (low - 0xDC00))

/-- The character that a backslash and a single letter stand for. -/
def letterEscape? (c : Char) : Option Char :=
  if c = '"' || c = '\\' || c = '/' then some c
  else if c = 'b' then some '\x08'
  else if c = 'f' then some '\x0c'
  else if c = 'n' then some '\n'
  else if c = 'r' then some '\r'
  else if c = 't' then some '\t'
  else none

/-- The character of the unit `n` and how many characters its escape takes, the letter `u`
included, where `after` follows it: a high half takes a low half that is written after it. -/
def unitEscape? (n : Nat) (after : Text) : Except Refusal (Char × Nat) :=
  match after with
  | '\\' :: 'u' :: a :: b :: c :: d :: more =>
    if isHighHalf n && !more.isEmpty then
      match unit? a b c d with
      | none => .error ⟨.unit, after.drop 1⟩
      | some m => if isLowHalf m then .ok (pairChar n m, 11) else .ok (unitChar n, 5)
    else .ok (unitChar n, 5)
  | _ => .ok (unitChar n, 5)

/-- The character of the escape at the head of `t`, the text after a backslash, and how many
characters the escape takes.  `opening` is the text from the quotation mark that opened the
string.  Four digits are read only where a character follows them. -/
def escape? (opening t : Text) : Except Refusal (Char × Nat) :=
  match t with
  | [] => .error ⟨.unterminated, opening⟩
  | 'u' :: a :: b :: c :: d :: e :: more =>
    match unit? a b c d with
    | none => .error ⟨.unit, t⟩
    | some n => unitEscape? n (e :: more)
  | 'u' :: _ => .error ⟨.unit, t⟩
  | c :: _ =>
    match letterEscape? c with
    | some d => .ok (d, 1)
    | none => .error ⟨.escape, '\\' :: t⟩

/-- Reads the characters of a string up to the quotation mark that closes it, after passing over
the given number of them. -/
def readChars (opening : Text) : Nat → Text → Read Text
  | _, [] => refuse .unterminated opening
  | skip + 1, _ :: rest => readChars opening skip rest
  | 0, c :: rest =>
    if c = '"' then .ok ([], rest)
    else if c = '\\' then
      match escape? opening rest with
      | .error r => .error r
      | .ok (d, taken) => (readChars opening taken rest).map fun (ds, left) => (d :: ds, left)
    else if c.toNat < 0x20 then refuse .control (c :: rest)
    else (readChars opening 0 rest).map fun (cs, left) => (c :: cs, left)

/-- Reads a string from the quotation mark on that opens it, which is the head of `opening`. -/
def readString (opening : Text) : Read Text := readChars opening 0 (opening.drop 1)

/-! ### Numbers -/

/-- The fraction at the head of a text: the digits after a point, if there is one of them. -/
def fraction (t : Text) : Text × Text :=
  match t with
  | '.' :: rest =>
    match rest.span Text.isAsciiDigit with
    | ([], _) => ([], t)
    | found => found
  | _ => ([], t)

/-- The exponent at the head of a text, if it has a digit. -/
def exponent (t : Text) : Option Int × Text :=
  match t with
  | [] => (none, t)
  | e :: rest =>
    if e = 'e' || e = 'E' then
      let (negative, ds) :=
        match rest with
        | '-' :: ds => (true, ds)
        | '+' :: ds => (false, ds)
        | ds => (false, ds)
      match ds.span Text.isAsciiDigit with
      | ([], _) => (none, t)
      | (ds, left) =>
        let n := (Text.digitsValue ds : Int)
        (some (if negative then -n else n), left)
    else (none, t)

/-- The digits of a whole number at the head of a text, a zero standing alone. -/
def wholeDigits (t : Text) : Text × Text :=
  match t with
  | '0' :: rest => (['0'], rest)
  | _ => t.span Text.isAsciiDigit

/-- Reads a number: an integer where there is neither a fraction nor an exponent, the nearest
double otherwise. -/
def readNumber (t : Text) : Read Value :=
  let (negative, unsigned) :=
    match t with
    | '-' :: rest => (true, rest)
    | _ => (false, t)
  match wholeDigits unsigned with
  | ([], _) => refuse .value t
  | (whole, left) =>
    let (fraction, left) := fraction left
    let (exponent, left) := exponent left
    if fraction.isEmpty && exponent.isNone then
      let n := (Text.digitsValue whole : Int)
      .ok (.int (if negative then -n else n), left)
    else
      let mantissa := Text.digitsValue (whole ++ fraction)
      .ok (.real (.ofDecimal negative mantissa (exponent.getD 0 - fraction.length)), left)

/-! ### Values -/

/-- The values written by a word. -/
def words : List (Text × Value) :=
  [("null".toList, .null), ("true".toList, .bool true), ("false".toList, .bool false),
   ("NaN".toList, .real .nan), ("Infinity".toList, .real (.infinity false)),
   ("-Infinity".toList, .real (.infinity true))]

/-- Reads a value that holds no other: a word or a number. -/
def readScalar (t : Text) : Read Value :=
  match words.find? fun w => t.startsWith w.1 with
  | some (word, v) => .ok (v, t.drop word.length)
  | none => readNumber t

/-- Passes over a colon with the white space around it. -/
def readColon (t : Text) : Except Refusal Text :=
  match skipWhite t with
  | ':' :: rest => .ok (skipWhite rest)
  | rest => .error ⟨.colon, rest⟩

/-- Reads the key of a member. -/
def readKey (t : Text) : Read Text :=
  match t with
  | '"' :: _ => readString t
  | _ => refuse .key t

mutual

/-- Reads a value at the head of a text. -/
def readValue : Nat → Text → Read Value
  | 0, t => refuse .value t
  | bound + 1, t =>
    match t with
    | '"' :: _ => (readString t).map fun (s, left) => (.string s, left)
    | '[' :: rest =>
      match skipWhite rest with
      | ']' :: left => .ok (.array [], left)
      | rest => (readItems bound rest).map fun (vs, left) => (.array vs, left)
    | '{' :: rest =>
      match skipWhite rest with
      | '}' :: left => .ok (.object [], left)
      | rest => (readMembers bound [] rest).map fun (ms, left) => (.object ms, left)
    | t => readScalar t

/-- Reads the items of an array, of which there is at least one, and the bracket after them. -/
def readItems : Nat → Text → Except Refusal (List Value × Text)
  | 0, t => refuse .value t
  | bound + 1, t => do
    let (v, left) ← readValue bound t
    match skipWhite left with
    | ']' :: left => .ok ([v], left)
    | ',' :: rest => (readItems bound (skipWhite rest)).map fun (vs, left) => (v :: vs, left)
    | rest => refuse .comma rest

/-- Reads the members of an object, of which there is at least one, and the brace after them,
adding them to those read before. -/
def readMembers : Nat → List (Text × Value) → Text →
    Except Refusal (List (Text × Value) × Text)
  | 0, _, t => refuse .value t
  | bound + 1, before, t => do
    let (key, left) ← readKey t
    let rest ← readColon left
    let (v, left) ← readValue bound rest
    let members := Value.setMember key v before
    match skipWhite left with
    | '}' :: left => .ok (members, left)
    | ',' :: rest => readMembers bound members (skipWhite rest)
    | rest => refuse .comma rest

end

/-- Reads a whole text as one value. -/
def read (t : Text) : Except Refusal Value := do
  if t.startsWith ['\uFEFF'] then .error ⟨.mark, t⟩
  else
    let (v, left) ← readValue (2 * t.length + 2) (skipWhite t)
    match skipWhite left with
    | [] => .ok v
    | rest => .error ⟨.extra, rest⟩

end Json

end LiveQuery
