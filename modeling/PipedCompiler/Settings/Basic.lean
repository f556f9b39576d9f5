import PipedCompiler.Cache.Digest
import PipedCompiler.Cache.Store
import PipedCompiler.Environment
import PipedCompiler.Text.Duration

/-!
# Settings

What a file of settings says, section by section.  Paths may refer to environment variables, which
are only looked up when the path is asked for.
-/

namespace PipedCompiler

open PipedCompiler.Text

namespace Settings

/-- How a compiler process talks to its parent. -/
structure Bridge where
  /-- Whether the parent can be asked if a file exists. -/
  asksExistence : Bool := true
  /-- How long a request and a whole session may take, in milliseconds; zero is forever. -/
  timeoutMillis : Nat := 30000
  deriving Repr, DecidableEq

/-- What a compiler process is told. -/
structure Compiler where
  target : LanguageTarget := .standard
  stages : Stages := .separate
  libraryLayout : LibraryLayout := .current
  newLine : NewLine := .native
  /-- Whether programs do without the default library. -/
  omitsDefaultLibrary : Bool := false
  deriving Repr, DecidableEq

/-- Where files are looked for. -/
structure Sources where
  /-- The directories that are searched, in order. -/
  roots : List String := ["."]
  /-- Whether what has been read is kept. -/
  memoizes : Bool := true
  deriving Repr, DecidableEq

/-- Where compiled output is kept. -/
structure Caching where
  kind : Cache.Kind := .none
  /-- The directory, if it is not the usual one. -/
  directory : Option String := none
  deriving Repr, DecidableEq

/-- Which processes are run. -/
structure Session where
  /-- The program of a compiler process, if it is not this one. -/
  program : Option String := none
  /-- How many run at once. -/
  limit : Nat := 4
  deriving Repr, DecidableEq

end Settings

/-- All settings. -/
structure Settings where
  bridge : Settings.Bridge := {}
  compiler : Settings.Compiler := {}
  sources : Settings.Sources := {}
  cache : Settings.Caching := {}
  session : Settings.Session := {}
  deriving Repr, DecidableEq

/-- Why there are no settings. -/
inductive SettingsError where
  | fileNotFound (path : String)
  /-- The file is no file, or not a text. -/
  | unreadable (cause : String)
  /-- The text is not a document of settings. -/
  | malformed
  | invalid (reason : String)
  | missingVariable (e : MissingVariable)
  deriving Repr, DecidableEq

/-- The wording of the error, without where a document is malformed. -/
def SettingsError.message : SettingsError → String
  | .fileNotFound path => s!"Config file not found: {path}"
  | .unreadable cause => s!"Failed to read config file: {cause}"
  | .malformed => "Failed to parse config file:"
  | .invalid reason => s!"Invalid configuration: {reason}"
  | .missingVariable e => e.message

namespace Settings

/-- The settings as a JSON value. -/
def json (s : Settings) : JsonValue :=
  .object [
    ("bridge", .object [("supports_exists_query", .bool s.bridge.asksExistence),
      ("timeout_ms", .number s.bridge.timeoutMillis)]),
    ("compiler", .object [("target", .string s.compiler.target.name),
      ("stages", .string s.compiler.stages.name),
      ("lib_layout", .string s.compiler.libraryLayout.name),
      ("new_line", .string s.compiler.newLine.name),
      ("no_default_lib", .bool s.compiler.omitsDefaultLibrary)]),
    ("sources", .object [("roots", .array (s.sources.roots.map .string)),
      ("memoize", .bool s.sources.memoizes)]),
    ("cache", .object [("kind", .string s.cache.kind.name),
      ("dir", (s.cache.directory.map .string).getD .null)]),
    ("session", .object [("program", (s.session.program.map .string).getD .null),
      ("max_concurrent", .number s.session.limit)])]

/-- The options of every compile. -/
def options (s : Settings) : CompileOptions :=
  ⟨s.compiler.target, s.compiler.stages, s.compiler.libraryLayout, s.compiler.newLine,
    s.compiler.omitsDefaultLibrary, s.bridge.asksExistence⟩

/-- How long a request and a session may take. -/
def timeout? (s : Settings) : Option Duration :=
  if s.bridge.timeoutMillis = 0 then none else some (.ofMillis s.bridge.timeoutMillis)

/-- The directories that are searched. -/
def sourceRoots (s : Settings) (env : Environment) : Except MissingVariable (List String) :=
  s.sources.roots.mapM env.expand

/-- A path that may be missing. -/
def expandPath? (env : Environment) : Option String → Except MissingVariable (Option String)
  | some path => (env.expand path).map some
  | none => .ok none

/-- The directory of compiled output. -/
def cacheDirectory? (s : Settings) (env : Environment) : Except MissingVariable (Option String) :=
  expandPath? env s.cache.directory

/-- The program of a compiler process. -/
def program? (s : Settings) (env : Environment) : Except MissingVariable (Option String) :=
  expandPath? env s.session.program

/-- Refuses settings with which nothing could be compiled. -/
def validate (s : Settings) : Except SettingsError Settings :=
  if s.session.limit = 0 then .error (.invalid "session.max_concurrent must be at least 1")
  else .ok s

end Settings

end PipedCompiler
