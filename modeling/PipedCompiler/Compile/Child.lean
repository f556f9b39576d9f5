import PipedCompiler.Bridge.Transcript
import PipedCompiler.Compile.Basic

/-!
# Compiler processes

A compiler process compiles one root.  If that succeeds it writes the output behind a marker line;
its exit code tells how it went.
-/

namespace PipedCompiler.Compile

open PipedCompiler.Text PipedCompiler.Bridge

/-- How a compiler process ends. -/
inductive Exit where
  | success
  /-- There were diagnostics. -/
  | compilationFailed
  /-- The parent could not be talked to. -/
  | bridgeFailed
  deriving Repr, DecidableEq

/-- The exit code. -/
def Exit.code : Exit → Nat
  | .success => 0
  | .compilationFailed => 1
  | .bridgeFailed => 2

/-- What a compiler process leaves behind. -/
structure ChildRun where
  exit : Exit
  /-- What is written after the last request. -/
  output : Bytes
  reported : List Diagnostic
  deriving Repr, DecidableEq

/-- The end of a compiler process.  Writing the output may fail at some step. -/
def childRun (failing : Option SendStep) (c : BridgedCompile) : ChildRun :=
  match c.result with
  | .ok output =>
    let block := encodeOutput (bytesOf output.text)
    match failing with
    | none => ⟨.success, block, c.reported⟩
    | some .write => ⟨.bridgeFailed, [], c.reported⟩
    | some .flush => ⟨.bridgeFailed, block, c.reported⟩
  | .error (.compilationFailed _ _) => ⟨.compilationFailed, [], c.reported⟩
  | .error (.bridge _) => ⟨.bridgeFailed, [], c.reported⟩

/-- Runs a compiler process over a source. -/
def runChild {β : Type} [Source β] (options : CompileOptions) (depth : Nat)
    (failing : Option SendStep) (root : String) (b : β) : Except Halt ChildRun × β :=
  let (c, b) := compileOver options depth root b
  (c.map (childRun failing), b)

end PipedCompiler.Compile
