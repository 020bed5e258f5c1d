/-
LiveQuery/Document.lean

Documents: one JSON value read from a text, from bytes, from a file of a folder or from the
standard input.

A folder holds files and directories under relative names.  A path walks through it component by
component; `..` steps back, out of the folder too, where nothing but directories is known.
-/
import LiveQuery.Json.Reader
import LiveQuery.Text.Quoted
import LiveQuery.Text.Utf8

namespace LiveQuery

/-- Why there is no document. -/
inductive LoadError
  /-- No file of this name. -/
  | missing (path : Text)
  /-- The path names a directory. -/
  | directory (path : Text)
  /-- Neither a path nor a piped input. -/
  | noInput
  /-- Nothing but blanks. -/
  | empty
  /-- The text is not JSON. -/
  | malformed (whole : Text) (refusal : Json.Refusal)
  /-- The bytes, without a byte order mark at their head, are not UTF-8. -/
  | undecodable (bytes : List Nat) (refusal : Utf8.Refusal)
  deriving Repr

/-- The wording of an error. -/
def LoadError.message : LoadError → Text
  | missing path => path
  | directory path => "[Errno 21] Is a directory: ".toList ++ path.quoted
  | noInput => "no input: pass a JSON file or pipe one on stdin".toList
  | empty => "empty input".toList
  | malformed whole refusal => "invalid JSON: ".toList ++ refusal.message whole
  | undecodable _ refusal => refusal.message

/-- An error as it is shown in a log: its kind, with what it was raised with. -/
def LoadError.shown : LoadError → Text
  | missing path => "FileNotFoundError(".toList ++ path.quoted ++ [')']
  | directory _ => "IsADirectoryError(21, 'Is a directory')".toList
  | undecodable bytes refusal =>
    "UnicodeDecodeError('utf-8', ".toList ++ Text.quotedBytes bytes ++ ", ".toList ++
      Text.ofNat refusal.position ++ ", ".toList ++
      Text.ofNat (refusal.position + refusal.count) ++ ", ".toList ++
      refusal.reason.message.quoted ++ [')']
  | e => "ValueError(".toList ++ e.message.quoted ++ [')']

namespace Document

/-- The document that a text writes. -/
def ofText (t : Text) : Except LoadError Value :=
  if t.all Text.isBlank then .error .empty
  else
    match Json.read t with
    | .ok v => .ok v
    | .error r => .error (.malformed t r)

/-- The document that bytes write, a byte order mark at their head being skipped. -/
def ofBytes (bs : List Nat) : Except LoadError Value :=
  let bs := Utf8.unmarked bs
  match Utf8.decode bs with
  | .ok t => ofText t
  | .error r => .error (.undecodable bs r)

end Document

/-! ### Folders -/

/-- Files and directories by the components of their names. -/
structure Folder where
  files : List (List Text × List Nat) := []
  directories : List (List Text) := []

namespace Folder

/-- The components of a path that name something. -/
def components (path : Text) : List Text :=
  (path.pieces '/').filter fun p => !p.isEmpty && p ≠ ['.']

/-- The folder that holds the given files and directories, with all directories above them. -/
def ofNames (files : List (Text × List Nat)) (directories : List Text) : Folder where
  files := files.map fun f => (components f.1, f.2)
  directories := directories.flatMap fun d =>
    (List.range ((components d).length + 1)).map (components d).take

/-- What a path leads to. -/
inductive Entry
  | file (bytes : List Nat)
  | directory
  | absent

/-- What stands under a list of components. -/
def entry (f : Folder) (name : List Text) : Entry :=
  if name.isEmpty || f.directories.contains name then .directory
  else
    match f.files.find? fun e => e.1 = name with
    | some e => .file e.2
    | none => .absent

/-- Walks on from the directory `here`; `above` counts the steps taken out of the folder. -/
def walk (f : Folder) (above : Nat) (here : List Text) : List Text → Entry
  | [] => if above = 0 then f.entry here else .directory
  | c :: rest =>
    if c = "..".toList then
      if here.isEmpty then f.walk (above + 1) [] rest
      else f.walk above here.dropLast rest
    else if above ≠ 0 then .absent
    else
      match f.entry (here ++ [c]) with
      | .directory => f.walk 0 (here ++ [c]) rest
      | .file bytes => if rest.isEmpty then .file bytes else .absent
      | .absent => .absent

/-- Whether a path can only lead to a directory, because nothing or a dot follows its last
slash. -/
def endsAsDirectory (path : Text) : Bool :=
  match path.splitLast '/' with
  | some (_, last) => last.isEmpty || last = ['.']
  | none => false

/-- What a path leads to; the empty path leads nowhere. -/
def lookUp (f : Folder) (path : Text) : Entry :=
  if path.isEmpty then .absent
  else
    match f.walk (if path.startsWith ['/'] then 1 else 0) [] (components path) with
    | .file bytes => if endsAsDirectory path then .absent else .file bytes
    | other => other

/-- The last component of a path: what follows its last slash. -/
def baseName (path : Text) : Text :=
  match path.splitLast '/' with
  | some (_, last) => last
  | none => path

end Folder

namespace Document

/-- The standard input: a terminal, or what is piped into it. -/
inductive Input
  | terminal
  | piped (bytes : List Nat)

/-- The name shown for a document from the standard input. -/
def inputName : Text := "<stdin>".toList

/-- The document of the standard input, with the name to show for it. -/
def ofInput : Input → Except LoadError (Value × Text)
  | .terminal => .error .noInput
  | .piped bytes => (ofBytes bytes).map (·, inputName)

/-- The document of what stands under a path, with the name to show for it. -/
def ofEntry (path : Text) : Folder.Entry → Except LoadError (Value × Text)
  | .absent => .error (.missing path)
  | .directory => .error (.directory path)
  | .file bytes => (ofBytes bytes).map (·, Folder.baseName path)

/-- The document in the file at a path, or in the standard input where no path is given. -/
def load (folder : Folder) (input : Input) : Option Text → Except LoadError (Value × Text)
  | none => ofInput input
  | some path => ofEntry path (folder.lookUp path)

end Document

end LiveQuery
