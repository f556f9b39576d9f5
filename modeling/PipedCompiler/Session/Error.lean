import PipedCompiler.Diagnostic.Basic
import PipedCompiler.Worker.Basic

/-!
# Failures of sessions

Why a session with a compiler process has no output.
-/

namespace PipedCompiler.Session

open PipedCompiler.Text PipedCompiler.Parent PipedCompiler.Worker

/-- What can go wrong between a parent and a process that says all went well. -/
inductive Mishap where
  | fault (f : ServeFault)
  | noOutput
  | other (text : String)
  deriving Repr, DecidableEq

/-- The wording of a mishap. -/
def Mishap.message : Mishap → String
  | .fault f => f.message
  | .noOutput => "compiler exited without sending its output"
  | .other text => text

/-- Why there is no output. -/
inductive SessionError where
  | spawnFailed (cause : String)
  | io (cause : Mishap)
  | compilationFailed (root : String) (diagnostics : List Diagnostic)
  | bridgeFailed (root message : String)
  | childFailed (root : String) (code : Int) (errors : String)
  | aborted (root : String)
  | timeout (root : String) (limit : Duration)
  deriving Repr, DecidableEq

namespace SessionError

/-- The wording of the error. -/
def message : SessionError → String
  | .spawnFailed cause => s!"failed to spawn compiler process: {cause}"
  | .io cause => "compiler process I/O failed: " ++ cause.message
  | .compilationFailed root _ => s!"Could not compile source file {root}"
  | .bridgeFailed root message => s!"compiler for {root} lost its source bridge: {message}"
  | .childFailed root code errors => s!"compiler for {root} exited with status {code}: {errors}"
  | .aborted root => s!"compiler for {root} was terminated by a signal"
  | .timeout root limit => s!"compiler for {root} timed out after " ++ limit.text

/-- The diagnostics of a compile that failed. -/
def diagnostics : SessionError → List Diagnostic
  | .compilationFailed _ ds => ds
  | _ => []

/-- Whether the process did not come to any of its own ends. -/
def isAbnormal : SessionError → Bool
  | .childFailed _ _ _ => true
  | .aborted _ => true
  | .timeout _ _ => true
  | _ => false

end SessionError

end PipedCompiler.Session
