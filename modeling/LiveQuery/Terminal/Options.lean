/-
LiveQuery/Terminal/Options.lean

Reading of command lines.

A command line holds options and at most one file.  A long option may be abbreviated as long as it
stays unique; its value follows an equals sign or is the next argument.  After `--` all arguments
are files; the same mark as a value stands for no value.  What looks like a negative number, or
holds a space, is no option.

Design.  The arguments are sorted first, each on its own, and only then taken one after the
other: an ambiguous abbreviation is refused whatever comes before it, and all else in the order
in which it stands.
-/
import LiveQuery.Text.Digit

namespace LiveQuery

namespace Terminal

/-- What an option does. -/
inductive OptionKind
  /-- It is set by being given. -/
  | flag
  /-- It takes a text. -/
  | text
  /-- It takes an integer. -/
  | number
  /-- It asks for help. -/
  | help
  deriving DecidableEq, Repr

/-- An option: its name, with the dashes, and what it does. -/
structure OptionSpec where
  name : Text
  kind : OptionKind
  deriving DecidableEq, Repr

/-- What was given for an option. -/
inductive Setting
  | flag
  /-- The option stands there, but its value is the mark for none. -/
  | nothing
  | text (t : Text)
  | number (n : Int)
  deriving DecidableEq, Repr

/-- Why a command line is not carried out. -/
inductive Stop
  /-- It is wrong. -/
  | usage
  /-- It asks for help. -/
  | help
  deriving DecidableEq, Repr

/-- The exit code of a command line that is not carried out. -/
def Stop.code : Stop → Nat
  | usage => 2
  | help => 0

/-- The options that ask for help. -/
def helpSpecs : List OptionSpec := [⟨"-h".toList, .help⟩, ⟨"--help".toList, .help⟩]

/-- The argument after which there are no options, and the value that stands for none. -/
def dashes : Text := "--".toList

/-- An argument on its own. -/
inductive Argument
  /-- A value, or the file. -/
  | word (t : Text)
  /-- The mark after which there are no options. -/
  | dashes
  /-- An option, with the value written onto it. -/
  | option (spec : OptionSpec) (value : Option Text)
  /-- An option that there is not. -/
  | unknown
  deriving DecidableEq, Repr

/-- Digits, of which there is one at least, and perhaps the end of a line. -/
def endsInDigits (t : Text) : Bool :=
  match t.span Text.isDigit with
  | (ds, rest) => !ds.isEmpty && (rest.isEmpty || rest = [Text.newline])

/-- A number with a minus sign: digits, or a fraction with digits after its point.  A line may end
after it. -/
def looksNegative (t : Text) : Bool :=
  match t with
  | '-' :: rest =>
    match rest.dropWhile Text.isDigit with
    | '.' :: fraction => endsInDigits fraction
    | _ => endsInDigits rest
  | _ => false

/-- The options that an argument may abbreviate, with the value written onto it.  A single dash
begins a short option, of one letter, onto which its value is written. -/
def candidates (specs : List OptionSpec) (t : Text) : List (OptionSpec × Option Text) :=
  if t.startsWith dashes then
    let (start, value) :=
      if t.contains '=' then
        let (name, value) := t.splitFirst '='
        (name, some value)
      else (t, none)
    (specs.filter fun s => s.name.startsWith start).map (·, value)
  else
    specs.filterMap fun s =>
      if s.name = t.take 2 then some (s, some (t.drop 2))
      else if s.name.startsWith t then some (s, none)
      else none

/-- The option of a name. -/
def spec? (specs : List OptionSpec) (name : Text) : Option OptionSpec :=
  specs.find? fun s => s.name = name

/-- Sorts an argument before `--`. -/
def sortArgument (specs : List OptionSpec) (t : Text) : Except Stop Argument :=
  if !t.startsWith ['-'] || t.length = 1 then .ok (.word t)
  else
    match spec? specs t with
    | some s => .ok (.option s none)
    | none =>
      let (name, value) := t.splitFirst '='
      match (if t.contains '=' then spec? specs name else none) with
      | some s => .ok (.option s (some value))
      | none =>
        match candidates specs t with
        | [(s, value)] => .ok (.option s value)
        | [] =>
          if looksNegative t || t.contains ' ' then .ok (.word t) else .ok .unknown
        | _ => .error .usage

/-- Sorts the arguments of a command line. -/
def sortArguments (specs : List OptionSpec) : List Text → Except Stop (List Argument)
  | [] => .ok []
  | t :: rest =>
    if t = dashes then .ok (.dashes :: rest.map .word)
    else
      match sortArgument specs t with
      | .error e => .error e
      | .ok a =>
        match sortArguments specs rest with
        | .error e => .error e
        | .ok more => .ok (a :: more)

/-- What a command line says: the file, and the settings of options, latest first. -/
structure CommandLine where
  file : Option Text := none
  settings : List (Text × Setting) := []
  deriving DecidableEq, Repr

/-- What has been taken of a command line: whether the file has had its turn, and whether there
was an argument too many. -/
structure Taken where
  line : CommandLine := {}
  fileDone : Bool := false
  extra : Bool := false

namespace Taken

/-- Takes the file. -/
def setFile (file : Option Text) (s : Taken) : Taken :=
  { s with line := { s.line with file }, fileDone := true }

/-- Takes a setting. -/
def set (spec : OptionSpec) (v : Setting) (s : Taken) : Taken :=
  { s with line := { s.line with settings := (spec.name, v) :: s.line.settings } }

/-- Takes an option that needs a value. -/
def setValue (spec : OptionSpec) (value : Text) (s : Taken) : Except Stop Taken :=
  if value = dashes then .ok (s.set spec .nothing)
  else if spec.kind = .number then
    match Text.readInt? value with
    | some n => .ok (s.set spec (.number n))
    | none => .error .usage
  else .ok (s.set spec (.text value))

/-- What becomes of letters written onto the short option for help.  They are further short
options, of which there is only this one; there has to be a letter. -/
def stopOfLetters (letters : Text) : Stop :=
  if !letters.isEmpty && letters.all (· = 'h') then .help else .usage

/-- Takes an option that needs no value: one that is written onto it is wrong. -/
def setBare (spec : OptionSpec) (value : Option Text) (s : Taken) : Except Stop Taken :=
  match value with
  | some t => if spec.name.length = 2 then .error (stopOfLetters t) else .error .usage
  | none => if spec.kind = .help then .error .help else .ok (s.set spec .flag)

end Taken

/-- Whether an option needs a value. -/
def OptionKind.needsValue : OptionKind → Bool
  | flag => false
  | help => false
  | text => true
  | number => true

/-- Takes sorted arguments one after the other. -/
def take : List Argument → Taken → Except Stop Taken
  | [], s => if s.extra then .error .usage else .ok s
  | .word t :: .dashes :: rest, s =>
    if s.fileDone then take rest { s with extra := true } else take rest (s.setFile (some t))
  | .word t :: rest, s =>
    if s.fileDone then take rest { s with extra := true } else take rest (s.setFile (some t))
  | .dashes :: .word t :: rest, s =>
    if s.fileDone then take rest { s with extra := true } else take rest (s.setFile (some t))
  | .dashes :: rest, s =>
    if s.fileDone then take rest { s with extra := true } else take rest (s.setFile none)
  | .unknown :: rest, s => take rest { s with extra := true }
  | .option spec value :: rest, s =>
    if spec.kind.needsValue then
      match value with
      | some t =>
        match s.setValue spec t with
        | .ok s => take rest s
        | .error e => .error e
      | none =>
        match rest with
        | .word t :: rest =>
          match s.setValue spec t with
          | .ok s => take rest s
          | .error e => .error e
        | _ => .error .usage
    else
      match s.setBare spec value with
      | .ok s => take rest s
      | .error e => .error e

/-- Reads a command line with the given options, besides those that ask for help. -/
def CommandLine.read (specs : List OptionSpec) (arguments : List Text) :
    Except Stop CommandLine :=
  match sortArguments (helpSpecs ++ specs) arguments with
  | .error e => .error e
  | .ok as => (take as {}).map Taken.line

namespace CommandLine

/-- What was given for an option: the latest counts. -/
def setting? (l : CommandLine) (name : String) : Option Setting :=
  (l.settings.find? fun s => s.1 = name.toList).map Prod.snd

/-- Whether an option was given. -/
def has (l : CommandLine) (name : String) : Bool := (l.setting? name).isSome

/-- The text given for an option, which may be none; `otherwise` where the option was not
given. -/
def text (l : CommandLine) (name : String) (otherwise : Option Text) : Option Text :=
  match l.setting? name with
  | some (.text t) => some t
  | some _ => none
  | none => otherwise

/-- The integer given for an option, which may be none; `otherwise` where the option was not
given. -/
def number (l : CommandLine) (name : String) (otherwise : Option Int) : Option Int :=
  match l.setting? name with
  | some (.number n) => some n
  | some _ => none
  | none => otherwise

end CommandLine

end Terminal

end LiveQuery
