/-
LiveQuery/Json/Printer.lean

JSON texts of values.

* `Value.pretty` is for reading: objects sorted by key, two spaces for each level, characters as
  they are.
* `Value.compact` is for sending: one line, members in their order, ASCII only.
-/
import LiveQuery.Json.Value

namespace LiveQuery

namespace Json

/-- How doubles without digits are spelled. -/
def spelling : Binary64.Spelling := ⟨"NaN".toList, "Infinity".toList⟩

/-- The short escape of a character, for those that have one and must be escaped. -/
def shortEscape? (c : Char) : Option Char :=
  if c = '"' then some '"'
  else if c = '\\' then some '\\'
  else if c = '\n' then some 'n'
  else if c = '\r' then some 'r'
  else if c = '\t' then some 't'
  else if c = '\x08' then some 'b'
  else if c = '\x0c' then some 'f'
  else none

/-- The escape of a 16-bit unit. -/
def unitEscape (n : Nat) : Text := '\\' :: 'u' :: Text.hex 4 n

/-- A character inside a string: quotation marks, backslashes and control characters are
escaped, all else stands for itself. -/
def plainChar (c : Char) : Text :=
  match shortEscape? c with
  | some e => ['\\', e]
  | none => if c.toNat < 0x20 then unitEscape c.toNat else [c]

/-- A character inside an ASCII string: whatever is not printable ASCII is escaped by its units
in UTF-16. -/
def asciiChar (c : Char) : Text :=
  match shortEscape? c with
  | some e => ['\\', e]
  | none =>
    let n := c.toNat
    if 0x20 ≤ n && n ≤ 0x7E then [c]
    else if n < 0x10000 then unitEscape n
    else unitEscape (0xD800 + (n - 0x10000) / 0x400) ++ unitEscape (0xDC00 + (n - 0x10000) % 0x400)

/-- A string with its quotation marks. -/
def quote (char : Char → Text) (t : Text) : Text := '"' :: (t.flatMap char ++ ['"'])

/-- The text of a boolean. -/
def boolText (b : Bool) : Text := if b then "true".toList else "false".toList

/-- A line feed and the indentation of a level. -/
def breakLine (level : Nat) : Text := '\n' :: List.replicate (2 * level) ' '

end Json

namespace Value

open Json

mutual

/-- The text of a value on several lines, members in their order, at a level of indentation. -/
def layout (level : Nat) : Value → Text
  | null => "null".toList
  | bool b => boolText b
  | int i => Text.ofInt i
  | real x => x.toText spelling
  | string t => quote plainChar t
  | array [] => "[]".toList
  | array (v :: rest) =>
    '[' :: breakLine (level + 1) ++ layout (level + 1) v ++ layoutItems (level + 1) rest ++
      breakLine level ++ [']']
  | object [] => "\x7b\x7d".toList
  | object ((k, v) :: rest) =>
    '{' :: breakLine (level + 1) ++ quote plainChar k ++ ": ".toList ++ layout (level + 1) v ++
      layoutMembers (level + 1) rest ++ breakLine level ++ ['}']

/-- The items after the first one, each on a line of its own. -/
def layoutItems (level : Nat) : List Value → Text
  | [] => []
  | v :: rest => ',' :: breakLine level ++ layout level v ++ layoutItems level rest

/-- The members after the first one, each on a line of its own. -/
def layoutMembers (level : Nat) : List (Text × Value) → Text
  | [] => []
  | (k, v) :: rest =>
    ',' :: breakLine level ++ quote plainChar k ++ ": ".toList ++ layout level v ++
      layoutMembers level rest

end

mutual

/-- The text of a value on one line, in ASCII, members in their order. -/
def compact : Value → Text
  | null => "null".toList
  | bool b => boolText b
  | int i => Text.ofInt i
  | real x => x.toText spelling
  | string t => quote asciiChar t
  | array [] => "[]".toList
  | array (v :: rest) => '[' :: compact v ++ compactItems rest ++ [']']
  | object [] => "\x7b\x7d".toList
  | object ((k, v) :: rest) =>
    '{' :: quote asciiChar k ++ ": ".toList ++ compact v ++ compactMembers rest ++ ['}']

/-- The items after the first one. -/
def compactItems : List Value → Text
  | [] => []
  | v :: rest => ", ".toList ++ compact v ++ compactItems rest

/-- The members after the first one. -/
def compactMembers : List (Text × Value) → Text
  | [] => []
  | (k, v) :: rest =>
    ", ".toList ++ quote asciiChar k ++ ": ".toList ++ compact v ++ compactMembers rest

end

/-- The text in which values are shown: sorted and laid out on several lines.  It is the same
for values that differ in the order of members only. -/
def pretty (v : Value) : Text := layout 0 v.sorted

end Value

end LiveQuery
