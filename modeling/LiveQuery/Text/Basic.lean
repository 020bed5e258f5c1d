/-
LiveQuery/Text/Basic.lean

Text as a list of characters.

Every index, length and offset of this library counts characters, so text is kept as the
list of them: a cut is `take` and `drop`, and a scan is a recursion on the list.
-/

namespace LiveQuery

/-- A text is the list of its characters. -/
abbrev Text := List Char

namespace Text

/-- The line feed, which ends a line inside a text. -/
def newline : Char := '\n'

/-- The decimal digits of a number, without leading zeros. -/
def ofNat (n : Nat) : Text := Nat.toDigits 10 n

/-- An integer in decimal, with a minus sign before a negative one. -/
def ofInt : Int → Text
  | .ofNat n => ofNat n
  | .negSucc n => '-' :: ofNat (n + 1)

/-- The number in lower-case hexadecimal, filled with zeros on the left to `width` digits. -/
def hex (width n : Nat) : Text :=
  let ds := Nat.toDigits 16 n
  List.replicate (width - ds.length) '0' ++ ds

/-- A text filled with spaces on the right to `width` characters. -/
def padRight (width : Nat) (t : Text) : Text :=
  t ++ List.replicate (width - t.length) ' '

/-- The pieces of `t` between the occurrences of `c`; there is always at least one. -/
def pieces (c : Char) : Text → List Text
  | [] => [[]]
  | d :: rest =>
    if d = c then [] :: pieces c rest
    else match pieces c rest with
      | [] => [[d]]
      | piece :: more => (d :: piece) :: more

/-- The lines of a text: the pieces between its line feeds. -/
def lines (t : Text) : List Text := pieces newline t

/-- The texts of a list, with `sep` between each two. -/
def joinWith (sep : Text) : List Text → Text
  | [] => []
  | [t] => t
  | t :: more => t ++ sep ++ joinWith sep more

/-- The lines of a list as one text. -/
def unlines (ls : List Text) : Text := joinWith [newline] ls

/-- The text before and the text after the rightmost `c`, or `none` where there is none. -/
def splitLast (c : Char) : Text → Option (Text × Text)
  | [] => none
  | d :: rest =>
    match splitLast c rest with
    | some (before, after) => some (d :: before, after)
    | none => if d = c then some ([], rest) else none

/-- The text before and the text after the leftmost `c`; all of it where there is none. -/
def splitFirst (c : Char) : Text → Text × Text
  | [] => ([], [])
  | d :: rest =>
    if d = c then ([], rest)
    else
      let (before, after) := splitFirst c rest
      (d :: before, after)

/-- Whether `t` begins with `start`. -/
def startsWith (t start : Text) : Bool := start.isPrefixOf t

/-- Whether `t` ends with `ending`. -/
def endsWith (t ending : Text) : Bool := ending.isSuffixOf t

/-- The order of texts: by the first character in which they differ, a shorter text before
its continuations. -/
def le (s t : Text) : Bool := !decide (t < s)

/-- The texts in increasing order. -/
def sort (ts : List Text) : List Text := ts.mergeSort le

end Text

end LiveQuery
