/-
LiveQuery/Completion/Context.lean

The context of completion: which path the text before the cursor names, and which key is being
typed after it.

The rightmost bar begins a new segment.  Within the segment, the split is at the rightmost dot
outside brackets whose left side is itself a filter.  Whether a text is a filter is asked of a
hook, which may keep a state of its own: the functions run in its monad.
-/
import LiveQuery.Text.Blank

namespace LiveQuery

/-- The path to complete at, the part of a key already typed, and the position in the text at
which a completed key goes. -/
structure Context where
  path : Text
  incomplete : Text
  start : Nat
  deriving DecidableEq, Repr, Inhabited

namespace Context

variable {m : Type → Type} [Monad m]

/-- Scans a segment from its end for a dot to split at.  `depth` counts the brackets closed to
the right and not opened yet; the segment is given in reverse. -/
def scanDots (valid : Text → m Bool) (depth : Int) : Text → m (Option Nat)
  | [] => pure none
  | c :: before =>
    if c = ']' then scanDots valid (depth + 1) before
    else if c = '[' then scanDots valid (depth - 1) before
    else if c = '.' && depth == 0 then
      if before.isEmpty then pure (some 0)
      else do
        if ← valid before.reverse then pure (some before.length)
        else scanDots valid depth before
    else scanDots valid depth before

/-- The position of the rightmost dot outside brackets that has nothing or a filter to its
left. -/
def keyDot? (valid : Text → m Bool) (segment : Text) : m (Option Nat) :=
  scanDots valid 0 segment.reverse

/-- The path to complete at when nothing names another. -/
def rootPath : Text := ['.']

/-- The context within a segment that begins at `offset`, split at the given dot. -/
def ofSegment (segment : Text) (offset : Nat) : Option Nat → Context
  | some dot =>
    let path := segment.take dot
    ⟨if path.isEmpty then rootPath else path, segment.drop (dot + 1), offset + dot + 1⟩
  | none =>
    match segment with
    | [] => ⟨rootPath, [], offset⟩
    | '.' :: rest => ⟨rootPath, rest, offset + 1⟩
    | _ => ⟨rootPath, segment, offset⟩

/-- The last segment of a text, with the number of characters before it. -/
def lastSegment (text : Text) : Text × Nat :=
  match text.splitLast '|' with
  | some (before, tail) =>
    let segment := tail.trimLeft
    (segment, before.length + 1 + (tail.length - segment.length))
  | none => (text, 0)

/-- The context of a filter text. -/
def ofText (valid : Text → m Bool) (text : Text) : m Context := do
  let (segment, offset) := lastSegment text
  return ofSegment segment offset (← keyDot? valid segment)

/-- The text with the typed part of the key replaced by a chosen one. -/
def accept (c : Context) (text chosen : Text) : Text := text.take c.start ++ chosen

end Context

end LiveQuery
