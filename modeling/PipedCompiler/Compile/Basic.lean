import PipedCompiler.Compile.Program

/-!
# Compiling

A compile loads a program, checks it and emits it.  The first of these stages that has something to
say ends it.  When stages are unified, the types are looked at together with what emitting says.
-/

namespace PipedCompiler.Compile

open PipedCompiler.Bridge

/-- What a successful compile makes. -/
structure CompileOutput where
  root : String
  text : String
  /-- The emitted files. -/
  files : List String
  /-- The files of the program. -/
  sources : List String
  deriving Repr, DecidableEq

/-- What a compile comes to when the bridge holds. -/
structure Compiled where
  /-- The output, or why there is none. -/
  outcome : Except (List Diagnostic) CompileOutput
  /-- The diagnostics that have been shown. -/
  reported : List Diagnostic

/-- A compile that ends with diagnostics shows them. -/
def Compiled.failed (ds : List Diagnostic) : Compiled := ⟨.error ds, ds⟩

/-- Compiles a loaded program. -/
def Program.compile (p : Program) (root : String) (host : Host) : Compiled :=
  let options := host.options
  let (loading, host) := host.takeDiagnostics
  let loading := loading ++ p.syntaxDiagnostics
  if loading ≠ [] then .failed loading
  else
    let types := p.typeDiagnostics
    if options.stages = .separate && types ≠ [] then .failed types
    else
      let emission := p.emit Surroundings.plain.canonicalName options.newLine.text
      let (emitting, host) := (host.writeAll emission.writes).takeDiagnostics
      let unified := if options.stages = .unified then types else []
      let diagnostics := unified ++ emitting ++ emission.diagnostics
      if diagnostics ≠ [] then .failed diagnostics
      else ⟨.ok ⟨root, host.output.text, host.output.files, p.paths⟩, []⟩

/-- Compiles a root.  Chains of imports may be `depth` files long. -/
def compile (options : CompileOptions) (depth : Nat) (root : String) :
    Dialogue (Except Halt Compiled) := do
  match ← Program.load .plain depth root (.start options) with
  | .ok (p, host) => return .ok (p.compile root host)
  | .error halt => return .error halt

/-- Why a compile has no output. -/
inductive CompileError where
  | compilationFailed (root : String) (diagnostics : List Diagnostic)
  | bridge (e : BridgeError)

/-- The wording of a failed compile. -/
def CompileError.message : CompileError → String
  | .compilationFailed root _ => "Could not compile source file " ++ root
  | .bridge e => "Bridge error: " ++ e.message

/-- A compile over a source that may fail: its result, and the diagnostics that have been shown. -/
structure BridgedCompile where
  result : Except CompileError CompileOutput
  reported : List Diagnostic

/-- Compiles a root over a source. -/
def compileOver {β : Type} [Source β] (options : CompileOptions) (depth : Nat) (root : String)
    (b : β) : Except Halt BridgedCompile × β :=
  match (compile options depth root).runOver b with
  | (.error e, b) => (.ok ⟨.error (.bridge e), []⟩, b)
  | (.ok (.error halt), b) => (.error halt, b)
  | (.ok (.ok c), b) =>
    match c.outcome with
    | .ok output => (.ok ⟨.ok output, c.reported⟩, b)
    | .error ds => (.ok ⟨.error (.compilationFailed root ds), c.reported⟩, b)

end PipedCompiler.Compile
