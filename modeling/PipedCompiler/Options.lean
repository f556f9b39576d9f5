/-!
# Options of a compile

The choices a caller makes, the names they go by, and where they lead: which library a program
starts from and how its lines end.
-/

namespace PipedCompiler

/-- A name that stands for none of the choices. -/
structure UnknownName where
  /-- What the name was meant to choose. -/
  choice : String
  name : String
  deriving Repr, DecidableEq

/-- The wording of the error. -/
def UnknownName.message (e : UnknownName) : String :=
  s!"unknown {e.choice}: {e.name}"

/-- The choice of a name, letters of either case. -/
def choose {α : Type} (choice : String) (names : List (String × α)) (name : String) :
    Except UnknownName α :=
  match names.lookup name.toLower with
  | some a => .ok a
  | none => .error ⟨choice, name.toLower⟩

/-- The language level of the emitted text. -/
inductive LanguageTarget where
  | es3
  | es5
  | es2015
  deriving Repr, DecidableEq, Inhabited

namespace LanguageTarget

/-- The name of a target. -/
def name : LanguageTarget → String
  | .es3 => "es3"
  | .es5 => "es5"
  | .es2015 => "es2015"

/-- The target of most compiles. -/
def standard : LanguageTarget := .es5

/-- All names of targets. -/
def names : List (String × LanguageTarget) :=
  [("es3", .es3), ("es5", .es5), ("es2015", .es2015), ("es6", .es2015)]

/-- The target of a name. -/
def ofName (name : String) : Except UnknownName LanguageTarget :=
  choose "language target" names name

/-- Whether declarations can be scoped to a block. -/
def hasBlockScoping (t : LanguageTarget) : Bool :=
  t = .es2015

end LanguageTarget

/-- When type diagnostics are gathered. -/
inductive Stages where
  /-- Before anything is emitted. -/
  | separate
  /-- Together with those of emitting. -/
  | unified
  deriving Repr, DecidableEq

namespace Stages

/-- The name of a choice of stages. -/
def name : Stages → String
  | .separate => "separate"
  | .unified => "unified"

/-- All names of choices of stages. -/
def names : List (String × Stages) :=
  [("separate", .separate), ("unified", .unified)]

/-- The stages of a name. -/
def ofName (name : String) : Except UnknownName Stages :=
  choose "diagnostic stages" names name

end Stages

/-- How the files of the default library are named. -/
inductive LibraryLayout where
  | current
  | legacy
  deriving Repr, DecidableEq

namespace LibraryLayout

/-- The name of a layout. -/
def name : LibraryLayout → String
  | .current => "current"
  | .legacy => "legacy"

/-- All names of layouts. -/
def names : List (String × LibraryLayout) :=
  [("current", .current), ("legacy", .legacy)]

/-- The layout of a name. -/
def ofName (name : String) : Except UnknownName LibraryLayout :=
  choose "default library layout" names name

/-- The file that declares the default library of a target. -/
def libraryPath : LibraryLayout → LanguageTarget → String
  | .current, .es2015 => "typescript/lib/lib.core.es6.d.ts"
  | .current, _ => "typescript/lib/lib.core.d.ts"
  | .legacy, .es2015 => "typescript/bin/lib.es6.d.ts"
  | .legacy, _ => "typescript/bin/lib.d.ts"

end LibraryLayout

/-- How the lines of the emitted text end. -/
inductive NewLine where
  | lf
  | crlf
  /-- As the platform does. -/
  | native
  deriving Repr, DecidableEq

namespace NewLine

/-- The name of a line ending. -/
def name : NewLine → String
  | .lf => "lf"
  | .crlf => "crlf"
  | .native => "native"

/-- All names of line endings. -/
def names : List (String × NewLine) :=
  [("lf", .lf), ("crlf", .crlf), ("native", .native)]

/-- The line ending of a name. -/
def ofName (name : String) : Except UnknownName NewLine :=
  choose "newline style" names name

/-- The characters that end a line. -/
def text : NewLine → String
  | .lf => "\n"
  | .crlf => "\r\n"
  | .native => "\n"

end NewLine

/-- The options of a compile. -/
structure CompileOptions where
  target : LanguageTarget := .standard
  stages : Stages := .separate
  libraryLayout : LibraryLayout := .current
  newLine : NewLine := .native
  /-- Whether programs do without the default library. -/
  omitsDefaultLibrary : Bool := false
  /-- Whether the parent can be asked if a file exists. -/
  asksExistence : Bool := true
  deriving Repr, DecidableEq

namespace CompileOptions

/-- The default library of the chosen target. -/
def libraryPath (o : CompileOptions) : String :=
  o.libraryLayout.libraryPath o.target

/-- The flags that give a compiler process the same options. -/
def childArguments (o : CompileOptions) : List String :=
  ["--target", o.target.name, "--stages", o.stages.name,
    "--lib-layout", o.libraryLayout.name, "--new-line", o.newLine.name]
    ++ (if o.omitsDefaultLibrary then ["--no-default-lib"] else [])
    ++ (if o.asksExistence then [] else ["--no-exists-query"])

end CompileOptions

end PipedCompiler
