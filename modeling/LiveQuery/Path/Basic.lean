/-
LiveQuery/Path/Basic.lean

Simple paths: `.`, or a dot and an element, followed by more elements.  An element is an
identifier after a dot, or a bracket `[n]` or `[]`, before which the dot may be missing.

Design.  The reader is a machine over the characters.  Its place says what has been read of the
element at hand, so that every step consumes one character and a step of the path is given out
when its element ends.  A bracket of too many digits ends the reading there and then, whatever
comes behind it.
-/
import LiveQuery.Text.Digit

namespace LiveQuery

/-- A step of a path: to a member, to an item, or to every item. -/
inductive Step
  | key (name : Text)
  | index (n : Nat)
  | iter
  deriving DecidableEq, Repr

/-- A path is the list of its steps. -/
abbrev Path := List Step

namespace Path

/-- A character that an identifier may start with. -/
def isIdentStart (c : Char) : Bool :=
  ('A' ≤ c && c ≤ 'Z') || ('a' ≤ c && c ≤ 'z') || c = '_'

/-- A character that may stand in an identifier. -/
def isIdentPart (c : Char) : Bool := isIdentStart c || Text.isAsciiDigit c

/-- Where the reader stands. -/
inductive Place
  /-- After a dot: an element must follow. -/
  | dot
  /-- Inside an identifier, with its characters so far. -/
  | ident (name : Text)
  /-- Inside a bracket, with its digits so far. -/
  | bracket (digits : Text)
  /-- After a bracket. -/
  | closed

/-- The place after the character that begins what follows an element. -/
def follow? (c : Char) : Option Place :=
  if c = '.' then some .dot else if c = '[' then some (.bracket []) else none

/-- The step of a bracket with the given digits. -/
def bracketStep (digits : Text) : Except Nat Step :=
  if digits.isEmpty then .ok .iter else (Text.number digits).map .index

/-- Reads the rest of a path from a place on: `none` where it is none, and an error with the number
of digits at a bracket that has too many. -/
def readFrom : Place → Text → Except Nat (Option Path)
  | .dot, [] => .ok none
  | .ident name, [] => .ok (some [.key name])
  | .bracket _, [] => .ok none
  | .closed, [] => .ok (some [])
  | .dot, c :: rest =>
    if isIdentStart c then readFrom (.ident [c]) rest
    else if c = '[' then readFrom (.bracket []) rest
    else .ok none
  | .ident name, c :: rest =>
    if isIdentPart c then readFrom (.ident (name ++ [c])) rest
    else
      match follow? c with
      | some place => (readFrom place rest).map (Option.map (.key name :: ·))
      | none => .ok none
  | .bracket digits, c :: rest =>
    if c = ']' then
      match bracketStep digits with
      | .ok step => (readFrom .closed rest).map (Option.map (step :: ·))
      | .error n => .error n
    else if Text.isDigit c then readFrom (.bracket (digits ++ [c])) rest
    else .ok none
  | .closed, c :: rest =>
    match follow? c with
    | some place => readFrom place rest
    | none => .ok none

/-- Reads a text as a path: `none` for a text outside the grammar, and an error with the number of
digits for one that comes to a bracket with too many. -/
def read : Text → Except Nat (Option Path)
  | [] => .ok (some [])
  | ['.'] => .ok (some [])
  | '.' :: rest => readFrom .dot rest
  | _ => .ok none

/-- The path that a text is read as, if it is read as one. -/
def ofText? (p : Text) : Option Path :=
  match read p with
  | .ok path => path
  | .error _ => none

theorem ofText?_eq_some_iff {p : Text} {ts : Path} :
    ofText? p = some ts ↔ read p = .ok (some ts) := by
  rw [ofText?]
  cases read p with
  | error n => exact iff_of_false nofun nofun
  | ok path => exact (Except.ok.injEq path (some ts)).to_iff.symm

end Path

end LiveQuery
