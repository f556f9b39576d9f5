import PipedCompiler.Compile.Dialogue
import PipedCompiler.Diagnostic.Basic

/-!
# The host of a compile

The host stands between a compile and the files outside.  It remembers what it has been told, so
that a compile sees the same files from beginning to end, and it gathers what the compile writes and
has to say.
-/

namespace PipedCompiler.Compile

open PipedCompiler.Text

/-- What has been written, in the order of writing. -/
structure Output where
  text : String
  files : List String
  deriving Repr, DecidableEq

namespace Output

/-- Nothing. -/
def empty : Output := ⟨"", []⟩

/-- Writes one more file. -/
def write (o : Output) (path text : String) : Output :=
  ⟨o.text ++ text, o.files ++ [path]⟩

end Output

/-- What a host knows, and what it has gathered. -/
structure Host where
  options : CompileOptions
  /-- What is known about paths: the text of a file, or that there is none. -/
  known : Table (Option (List Char))
  output : Output
  diagnostics : List Diagnostic

/-- A computation with a host. -/
abbrev Hosted := StateT Host Dialogue

namespace Host

/-- A host that knows nothing yet. -/
def start (options : CompileOptions) : Host :=
  ⟨options, .empty, .empty, []⟩

/-- The host once it knows about a path. -/
def learn (h : Host) (path : String) (text : Option (List Char)) : Host :=
  { h with known := h.known.insert path text }

/-- The host with one more thing to say. -/
def report (h : Host) (d : Diagnostic) : Host :=
  { h with diagnostics := h.diagnostics ++ [d] }

/-- The host with one more file written. -/
def write (h : Host) (path text : String) : Host :=
  { h with output := h.output.write path text }

/-- What the host has to say, and the host with nothing left to say. -/
def takeDiagnostics (h : Host) : List Diagnostic × Host :=
  (h.diagnostics, { h with diagnostics := [] })

/-- What is said about a file that is not a text. -/
def undecodable (path : String) (e : Utf8.DecodeError) : Diagnostic :=
  .error "TS5012" s!"Cannot read file '{path}': {e.message}."

/-- The text of a file's bytes.  A file that is not a text counts as empty. -/
def decode (path : String) (bs : Bytes) : Hosted (List Char) := fun h =>
  match SourceFile.decode bs with
  | .ok text => .done (text, h)
  | .error e => .done ([], h.report (undecodable path e))

/-- The text of a file; `none` if there is no such file. -/
def load (path : String) : Hosted (Option (List Char)) := do
  match (← get).known.get? path with
  | some text => return text
  | none =>
    let text ← match ← Dialogue.askContents path with
      | some bs => some <$> decode path bs
      | none => pure none
    modify (·.learn path text)
    return text

/-- Whether there is a file.  The parent is asked just that if it understands the question. -/
def exists? (path : String) : Hosted Bool := do
  match (← get).known.get? path with
  | some text => return text.isSome
  | none =>
    if (← get).options.asksExistence then
      let found ← Dialogue.askPresence path
      if !found then modify (·.learn path none)
      return found
    else
      return (← load path).isSome

/-- A file as a source; `none` if there is no such file. -/
def sourceFile (path : String) (target : LanguageTarget) : Hosted (Option SourceFile) := do
  return (← load path).map fun chars => ⟨path, chars, target⟩

end Host

end PipedCompiler.Compile
