/-
LiveQuery/Query/Outcome.lean

How the run of a filter ends, and what may be raised instead of an answer.
-/
import LiveQuery.Text.Digit

namespace LiveQuery

/-- An error that a query can end in. -/
inductive QueryError
  /-- The filter text is no program. -/
  | parse (message : Text)
  /-- The program failed on the document. -/
  | evaluation (message : Text)
  /-- The run saw that it had been cancelled. -/
  | cancelled
  /-- An error of no kind of its own. -/
  | other (message : Text)
  deriving DecidableEq, Repr

/-- The wording of an error. -/
def QueryError.message : QueryError → Text
  | parse m => m
  | evaluation m => m
  | cancelled => "query cancelled".toList
  | other m => m

/-- The kind of an error, as hosts show it. -/
def QueryError.kind : QueryError → Text
  | parse _ => "parse".toList
  | evaluation _ => "evaluation".toList
  | cancelled => "cancelled".toList
  | other _ => "error".toList

/-- The outcome of a run: its printed output, or the error it ended in. -/
inductive Outcome
  | output (raw : Text)
  | failed (error : QueryError)
  deriving DecidableEq, Repr

namespace Outcome

/-- The printed output, empty for an error. -/
def raw : Outcome → Text
  | output t => t
  | failed _ => []

/-- The error, if there is one. -/
def error? : Outcome → Option QueryError
  | output _ => none
  | failed e => some e

/-- Whether the run ended without an error. -/
def isOk (o : Outcome) : Bool := o.error?.isNone

/-- Whether the run was cancelled. -/
def isCancelled (o : Outcome) : Bool := o.error? == some .cancelled

/-- The lines to show: those of the output, or of the error's wording. -/
def lines : Outcome → List Text
  | output t => t.lines
  | failed e => e.message.lines

end Outcome

/-- What an operation may raise. -/
inductive Fault
  /-- A query error. -/
  | query (error : QueryError)
  /-- The evaluator broke down. -/
  | crash (message : Text)
  /-- A number has too many digits to be read. -/
  | tooLong (digits : Nat)
  /-- Work was submitted after the end of the session. -/
  | shutDown
  /-- An operation that waits was called under a host that does not wait. -/
  | noLoop
  /-- A selection outside the list of suggestions. -/
  | outOfRange
  /-- A run took longer than the given number of seconds. -/
  | timeout (seconds : Text)
  /-- Keys were asked for at no path. -/
  | noPath
  /-- A filter was to be read where there is none. -/
  | noText
  deriving DecidableEq, Repr

/-- The wording of a fault. -/
def Fault.message : Fault → Text
  | query e => e.message
  | crash m => m
  | tooLong digits =>
    "Exceeds the limit (".toList ++ Text.ofNat Text.maxDigits ++
      " digits) for integer string conversion: value has ".toList ++ Text.ofNat digits ++
      " digits; use sys.set_int_max_str_digits() to increase the limit".toList
  | shutDown => "cannot schedule new futures after shutdown".toList
  | noLoop => "blocking helpers need the built-in EventLoop scheduler".toList
  | outOfRange => "list index out of range".toList
  | timeout seconds => "filter did not finish within ".toList ++ seconds ++ ['s']
  | noPath => "unhashable type: 'list'".toList
  | noText => "'list' object has no attribute 'rfind'".toList

/-- The error that a fault of a background run counts as: a query error stays what it is, all
else is an error of the evaluation. -/
def Fault.toQueryError : Fault → QueryError
  | query e => e
  | f => .evaluation f.message

/-- The outcome of a background run that may have raised a fault. -/
def Outcome.ofRun : Except Fault Outcome → Outcome
  | .ok o => o
  | .error f => .failed f.toQueryError

end LiveQuery
