import PipedCompiler.Bridge.Transcript
import PipedCompiler.CommandLine.Orders
import PipedCompiler.Session.Basic
import PipedCompiler.Settings.Loading
import PipedCompiler.Worker.Invocation

/-!
# Carrying out orders

What becomes of the words of a command line, given the files, the environment and the input that the
program finds.
-/

namespace PipedCompiler.CommandLine

open PipedCompiler.Text PipedCompiler.Bridge PipedCompiler.Compile PipedCompiler.Parent
open PipedCompiler.Worker PipedCompiler.Session

/-- What the program finds when it is started. -/
structure Situation where
  tree : FileTree
  environment : Environment
  /-- What can be read from the standard input. -/
  input : Bytes

/-- What the program leaves behind. -/
structure Report where
  code : Nat
  /-- What is written to the standard output. -/
  output : Bytes
  /-- What is written beside the output. -/
  errors : String
  tree : FileTree

/-- The name of the program and its version. -/
def versionText : String := "srcbridge 0.1.0\n"

/-- What can be said to the program. -/
def helpText : String :=
  "srcbridge - Compile sources through a compiler that reads only from its parent\n\n"
    ++ "Usage: srcbridge compile [OPTIONS] <FILES>...\n"

/-- Why nothing is done about words that are not understood. -/
def usageText : String :=
  "error: the command line is not understood\n\nFor more information, try '--help'.\n"

/-- The options of an order, over those of the settings. -/
def CompileOrder.adjust (o : CompileOrder) (s : Settings) : Settings where
  bridge := { s.bridge with timeoutMillis := o.timeoutMillis.getD s.bridge.timeoutMillis }
  compiler := s.compiler
  sources := if o.sourceRoots.isEmpty then s.sources else { s.sources with roots := o.sourceRoots }
  cache := { s.cache with kind := o.cache.getD s.cache.kind }
  session := { s.session with limit := (o.limit.map (max · 1)).getD s.session.limit }

/-- Why a session cannot be set up. -/
inductive SetupError where
  | missingVariable (e : MissingVariable)
  /-- There is no place for compiled output. -/
  | noCacheDirectory
  /-- The directory for compiled output cannot be made. -/
  | directoryFault (cause : String)
  deriving Repr, DecidableEq

/-- The wording of the error. -/
def SetupError.message : SetupError → String
  | .missingVariable e => e.message
  | .noCacheDirectory => "Failed to determine cache directory"
  | .directoryFault cause => s!"IO error: {cause}"

/-- What is used, where a variable may be missing. -/
def orMissing {α : Type} : Except MissingVariable α → Except SetupError α
  | .ok a => .ok a
  | .error e => .error (.missingVariable e)

/-- Opens the store of compiled output. -/
def openStore (s : Settings) (directory : Option String) (env : Environment) (t : FileTree) :
    Except SetupError (Cache.Store × FileTree) :=
  match s.cache.kind, directory.orElse fun _ => env.cacheDirectory? with
  | .disk, none => .error .noCacheDirectory
  | kind, directory =>
    let directory := directory.getD ""
    match Cache.Store.open? kind directory t with
    | some opened => .ok opened
    | none => .error (.directoryFault (t.directoryFault directory))

/-- Sets up sessions. -/
def setUp (s : Settings) (choices : Choices) (found : Situation) :
    Except SetupError (Compiler × Context) := do
  let env := found.environment
  let roots ← orMissing (s.sourceRoots env)
  let sources := if s.sources.memoizes then .memoized .empty (.directories roots)
    else .directories roots
  let directory ← orMissing (s.cacheDirectory? env)
  let (store, t) ← openStore s directory env found.tree
  let invocation : Invocation := match ← orMissing (s.program? env) with
    | some path => .other path Invocation.own.arguments
    | none => .own
  return (⟨invocation.program, choices.apply s.options, s.timeout?⟩,
    ⟨⟨sources, ⟨t, .empty, 0⟩⟩, store⟩)

/-- The heading of output. -/
def heading (target : LanguageTarget) (o : SessionOutput) : String :=
  let origin := if o.cached then "// Cached: yes" else s!"// Requests: {o.requests}"
  s!"// srcbridge compiled output\n// Source: {o.root}\n// Target: {target.name}\n{origin}\n\n"

/-- What is printed of output. -/
def printedOutput (layout : Layout) (target : LanguageTarget) (o : SessionOutput) : String :=
  match layout with
  | .js => o.text
  | .verbose => heading target o ++ o.text

/-- What is printed of a failure. -/
def printedError (e : SessionError) : String :=
  let diagnostics := match e.diagnostics with
    | [] => ""
    | ds => Diagnostic.textLines ds ++ "\n"
  diagnostics ++ "Compilation error: " ++ e.message ++ "\n"

/-- What is printed of results, and whether all went well. -/
def reportOf (layout : Layout) (target : LanguageTarget) (results : List SessionResult)
    (t : FileTree) : Report :=
  let outputs := results.filterMap Except.toOption
  let errors := results.filterMap fun r =>
    match r with
    | .ok _ => none
    | .error e => some e
  ⟨if errors.isEmpty then 0 else 1, outputs.flatMap fun o => bytesOf (printedOutput layout target o),
    String.join (errors.map printedError), t⟩

/-- A failure before anything is compiled. -/
def failure (what message : String) (t : FileTree) : Report :=
  ⟨1, [], s!"{what} error: {message}\n", t⟩

/-- Compiles roots. -/
def CompileOrder.carryOut (o : CompileOrder) (found : Situation) : Report :=
  match Settings.load found.tree found.environment o.settings with
  | .error e => failure "Configuration" e.message found.tree
  | .ok s =>
    let s := o.adjust s
    match setUp s o.choices found with
    | .error e => failure "Setup" e.message found.tree
    | .ok (k, c) =>
      let (results, c) := k.compileAll o.files s.session.limit c
      reportOf (o.layout.getD .js) k.options.target results c.tree

/-- Is a compiler process for a parent at the standard input and output. -/
def ChildOrder.carryOut (o : ChildOrder) (root : String) (found : Situation) : Report :=
  let stream := Stream.ofBytes found.input
  let outlet := Transcript.start none
  let client := match o.timeoutMillis.filter (· ≠ 0) with
    | some millis => Client.startWithin (.ofMillis millis) stream outlet
    | none => Client.start stream outlet
  let (run, client) := runChild (o.choices.apply {}) importLimit none root client
  match run with
  | .ok run =>
    ⟨run.exit.code, client.outlet.written ++ run.output, lossyString (shownLines run.reported),
      found.tree⟩
  | .error _ => ⟨101, client.outlet.written, "", found.tree⟩

/-- Carries out an order. -/
def Order.carryOut (o : Order) (found : Situation) : Report :=
  match o with
  | .compile order => order.carryOut found
  | .child root order => order.carryOut root found

/-- Carries out the words of a command line. -/
def run (words : List String) (found : Situation) : Report :=
  match Order.ofWords words with
  | .ok order => order.carryOut found
  | .error .version => ⟨0, bytesOf versionText, "", found.tree⟩
  | .error .help => ⟨0, bytesOf helpText, "", found.tree⟩
  | .error .usage => ⟨2, [], usageText, found.tree⟩

end PipedCompiler.CommandLine
