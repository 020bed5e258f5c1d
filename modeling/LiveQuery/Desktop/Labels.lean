/-
LiveQuery/Desktop/Labels.lean

Texts of the desktop window: paths that are made to fit, numbers, and the line of its state.
-/
import LiveQuery.Text.Basic

namespace LiveQuery

namespace Text

/-- The first `n` characters, or all but the last `-n` where `n` is negative. -/
def head (t : Text) (n : Int) : Text :=
  if 0 ≤ n then t.take n.toNat else t.take (t.length - n.natAbs)

/-- The text from position `i` on, which is counted from the end where it is negative. -/
def tailFrom (t : Text) (i : Int) : Text :=
  if 0 ≤ i then t.drop i.toNat else t.drop (t.length - i.natAbs)

/-- A path of more than `limit` characters with its middle left out. -/
def shortened (path : Text) (limit : Int) : Text :=
  if (path.length : Int) ≤ limit then path
  else
    let keep := limit.fdiv 2 - 3
    path.head keep ++ "...".toList ++ path.tailFrom (-keep)

/-- The digits of a number from the last one on, with a comma after every third of them that is
followed by another. -/
def commasFromEnd : Text → Text
  | a :: b :: c :: d :: rest => a :: b :: c :: ',' :: commasFromEnd (d :: rest)
  | ds => ds

/-- A number with commas between its groups of three digits. -/
def grouped (n : Nat) : Text := (commasFromEnd (ofNat n).reverse).reverse

end Text

namespace Desktop

/-- The longest path that is shown whole. -/
def maxSource : Int := 60

/-- The text of the source before a document is loaded. -/
def noSource : Text := "No document loaded".toList

/-- The text of the output before a document is loaded. -/
def noOutput : Text := "(open a JSON document to begin)".toList

/-- The first line of the log. -/
def greeting : Text := "GUI ready. Open a JSON file to begin.".toList

/-- The line that shows a state. -/
def statusLine (state : Text) : Text := "Status: ".toList ++ state

/-- The states of a window that has nothing to show, that loads, and that could not load. -/
def readyState : Text := "Ready".toList
def loadingState : Text := "Loading…".toList
def notLoadedState : Text := "Error while loading document.".toList

/-- What stands above keys and suggestions. -/
def keysTitle : Text := "Available keys".toList
def matchesTitle : Text := "Matching keys".toList
def suggestionsTitle : Text := "Suggestions".toList

end Desktop

end LiveQuery
