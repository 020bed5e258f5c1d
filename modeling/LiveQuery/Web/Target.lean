/-
LiveQuery/Web/Target.lean

Targets of requests, as a client writes them: a path, and perhaps a query.

A target may begin with two slashes and the name of a host, which is passed over, and end with a
mark inside the page, which is not sent.  An escape such as `%41` stands for a byte of UTF-8.
-/
import LiveQuery.Text.Digit
import LiveQuery.Text.Utf8

namespace LiveQuery

namespace Web

/-- The bytes that an escaped text stands for. -/
def escapedBytes : Text → List Nat
  | [] => []
  | '%' :: a :: b :: rest =>
    match Text.hexValue? a, Text.hexValue? b with
    | some high, some low => (high * 16 + low) :: escapedBytes rest
    | _, _ => '%'.toNat :: escapedBytes (a :: b :: rest)
  | c :: rest => (String.utf8EncodeChar c).map UInt8.toNat ++ escapedBytes rest

/-- The text that an escaped text stands for; one that stands for no text is left as it is. -/
def unescape (t : Text) : Text :=
  match Utf8.decode (escapedBytes t) with
  | .ok u => u
  | .error _ => t

/-- A path, and a query by name and value. -/
structure Target where
  path : Text
  query : List (Text × Text) := []
  deriving DecidableEq, Repr

/-- A name or value of a query, in which a plus sign stands for a space. -/
def unescapeField (t : Text) : Text := unescape (t.map fun c => if c = '+' then ' ' else c)

/-- The names and values of a query. -/
def readQuery (t : Text) : List (Text × Text) :=
  ((Text.pieces '&' t).filter fun p => !p.isEmpty).map fun p =>
    let (name, value) := p.splitFirst '='
    (unescapeField name, unescapeField value)

/-- The characters that a target may be broken with. -/
def breaksTarget (c : Char) : Bool := c = '\t' || c = '\r' || c = '\n'

/-- A target without the host that it begins with. -/
def dropHost : Text → Text
  | '/' :: '/' :: rest => rest.dropWhile fun c => c ≠ '/' && c ≠ '?' && c ≠ '#'
  | t => t

/-- Reads a target. -/
def Target.ofText (t : Text) : Target :=
  let sent := ((dropHost (t.filter fun c => !breaksTarget c)).splitFirst '#').1
  let (path, query) := sent.splitFirst '?'
  { path := unescape path, query := readQuery query }

end Web

end LiveQuery
