/-
LiveQuery/Display/Paint.lean

Colours of lines, written as escape sequences of a terminal.

A line of JSON is painted in six passes: brackets, keys, strings, numbers, booleans, null.  Each
pass is a rule that looks at the text from a position on and may replace a piece of it; `substitute`
applies a rule from left to right to pieces that do not overlap.  The passes know nothing of the
structure of the line, and a later one reads what the earlier ones have written.
-/
import LiveQuery.Display.Cells
import LiveQuery.Text.Digit

namespace LiveQuery

namespace Display

/-- A rule of replacement: for the text from a position on, the replacement of a piece at its
head and the length of that piece. -/
abbrev Rule := Text → Option (Text × Nat)

/-- Applies a rule from left to right, after passing over the given number of characters. -/
def substituteFrom (rule : Rule) : Nat → Text → Text
  | _, [] => []
  | skip + 1, _ :: rest => substituteFrom rule skip rest
  | 0, c :: rest =>
    match rule (c :: rest) with
    | some (out, length) => out ++ substituteFrom rule (length - 1) rest
    | none => c :: substituteFrom rule 0 rest

/-- Replaces the pieces that a rule finds. -/
def substitute (rule : Rule) (t : Text) : Text := substituteFrom rule 0 t

/-! ### Escape sequences -/

/-- The character that begins an escape sequence. -/
def esc : Char := '\x1b'

/-- The escape sequence with the given parameters. -/
def sequence (parameters : String) : Text := esc :: '[' :: (parameters.toList ++ ['m'])

/-- Ends all colours. -/
def reset : Text := sequence "0"

/-- The colours by what they are for. -/
def keyColour : Text := sequence "36"
def stringColour : Text := sequence "32"
def numberColour : Text := sequence "33"
def boolColour : Text := sequence "35"
def nullColour : Text := sequence "90"
def bracketColour : Text := sequence "37"
def errorColour : Text := sequence "31"

/-- A text in a colour. -/
def painted (colour t : Text) : Text := colour ++ t ++ reset

/-- A character that may stand among the parameters of a sequence. -/
def isParameter (c : Char) : Bool := Text.isAsciiDigit c || c = ';'

/-- Removes a sequence. -/
def plainRule : Rule
  | c :: '[' :: rest =>
    if c = esc then
      let parameters := rest.takeWhile isParameter
      match rest.drop parameters.length with
      | 'm' :: _ => some ([], parameters.length + 3)
      | _ => none
    else none
  | _ => none

/-- The text without its escape sequences. -/
def plain (styled : Text) : Text := substitute plainRule styled

/-- The number of cells that a styled text takes. -/
def visibleWidth [Glyphs] (styled : Text) : Nat := (plain styled).width

/-! ### Passes -/

/-- Paints a bracket. -/
def bracketRule : Rule
  | c :: _ =>
    if c = '{' || c = '}' || c = '[' || c = ']' then some (painted bracketColour [c], 1) else none
  | [] => none

/-- Paints what stands between two quotation marks before a colon, inside the marks. -/
def keyRule : Rule
  | '"' :: rest =>
    let name := rest.takeWhile (· ≠ '"')
    match name, rest.drop name.length with
    | [], _ => none
    | _, '"' :: after =>
      let blanks := after.takeWhile Text.isBlank
      match after.drop blanks.length with
      | ':' :: _ =>
        some ('"' :: (painted keyColour name ++ '"' :: (blanks ++ [':'])),
          name.length + blanks.length + 3)
      | _ => none
    | _, _ => none
  | _ => none

/-- The length of a string from behind its opening quotation mark to its closing one included.
A backslash takes the character after it along, but no line feed. -/
def stringLength? : Text → Option Nat
  | [] => none
  | '"' :: _ => some 1
  | '\\' :: c :: rest => if c = '\n' then none else (stringLength? rest).map (· + 2)
  | ['\\'] => none
  | _ :: rest => (stringLength? rest).map (· + 1)

/-- Whether a text holds the beginning of an escape sequence. -/
def hasSequence : Text → Bool
  | c :: d :: rest => (c = esc && d = '[') || hasSequence (d :: rest)
  | _ => false

/-- Paints a string, unless something in it is painted already. -/
def stringRule : Rule
  | '"' :: rest =>
    match stringLength? rest with
    | some n =>
      let s := '"' :: rest.take n
      some (if hasSequence s then s else painted stringColour s, n + 1)
    | none => none
  | _ => none

/-- The text at the head that `piece` measures, painted with a colon and a space before it, where
a colon and blanks come before it. -/
def afterColon (colour : Text) (piece : Text → Option Nat) : Rule
  | ':' :: rest =>
    let blanks := rest.takeWhile Text.isBlank
    let body := rest.drop blanks.length
    match piece body with
    | some n => some (": ".toList ++ painted colour (body.take n), blanks.length + n + 1)
    | none => none
  | _ => none

/-- The number of digits at the head of a text. -/
def digitsLength (t : Text) : Nat := (t.takeWhile Text.isDigit).length

/-- The length of a fraction at the head of a text, 0 where there is none. -/
def fractionLength : Text → Nat
  | '.' :: rest => if digitsLength rest = 0 then 0 else digitsLength rest + 1
  | _ => 0

/-- The length of an exponent at the head of a text, 0 where there is none. -/
def exponentLength : Text → Nat
  | e :: rest =>
    if e = 'e' || e = 'E' then
      let sign : Nat :=
        match rest with
        | '+' :: _ => 1
        | '-' :: _ => 1
        | _ => 0
      let digits := digitsLength (rest.drop sign)
      if digits = 0 then 0 else 1 + sign + digits
    else 0
  | [] => 0

/-- The length of a number at the head of a text. -/
def numberLength? (t : Text) : Option Nat :=
  let sign : Nat :=
    match t with
    | '-' :: _ => 1
    | _ => 0
  let digits := digitsLength (t.drop sign)
  if digits = 0 then none
  else
    let n := sign + digits
    let n := n + fractionLength (t.drop n)
    some (n + exponentLength (t.drop n))

/-- The length of the first of some words that stands at the head of a text. -/
def wordLength? (words : List Text) (t : Text) : Option Nat :=
  (words.find? t.startsWith).map List.length

/-- Paints a number after a colon. -/
def numberRule : Rule := afterColon numberColour numberLength?

/-- Paints a boolean after a colon. -/
def boolRule : Rule := afterColon boolColour (wordLength? ["true".toList, "false".toList])

/-- Paints a null after a colon. -/
def nullRule : Rule := afterColon nullColour (wordLength? ["null".toList])

/-- The passes in their order. -/
def passes : List Rule := [bracketRule, keyRule, stringRule, numberRule, boolRule, nullRule]

/-- A line of JSON in colours. -/
def paint (line : Text) : Text := passes.foldl (fun t rule => substitute rule t) line

/-- A line of an error in its colour. -/
def paintError (line : Text) : Text := if line.isEmpty then [] else painted errorColour line

end Display

end LiveQuery
