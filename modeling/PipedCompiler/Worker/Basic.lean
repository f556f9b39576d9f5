import PipedCompiler.Options
import PipedCompiler.Parent.Serving

/-!
# Processes

What a session needs to know about the processes it starts: what they are told, how they are started
and how they end.
-/

namespace PipedCompiler.Worker

open PipedCompiler.Text PipedCompiler.Parent

/-- What a compiler process is told. -/
structure Task where
  options : CompileOptions
  /-- How long a request may take. -/
  limit : Option Duration
  root : String
  deriving Repr, DecidableEq

/-- The arguments that tell a process its task.  The root may look like an option, so it is set
apart. -/
def Task.arguments (t : Task) : List String :=
  t.options.childArguments
    ++ (match t.limit with
      | some limit => ["--timeout-ms", String.ofList (Decimal.digits limit.millis)]
      | none => [])
    ++ ["--", t.root]

/-- How a process ends. -/
inductive Ending where
  | exited (code : Nat)
  /-- By a signal. -/
  | killed
  /-- Not at all, as it waits for ever. -/
  | endless
  deriving Repr, DecidableEq

/-- What a process leaves behind. -/
structure Run (ρ : Type) where
  /-- The parent, once the process writes nothing more. -/
  server : Server ρ
  /-- What the process has said beside its output. -/
  errors : Bytes
  /-- How long it has taken, in milliseconds. -/
  elapsed : Nat
  ending : Ending

/-- Why a process cannot be started. -/
inductive StartFault where
  | notFound
  /-- An argument with a character that ends it. -/
  | nulInArgument
  deriving Repr, DecidableEq

/-- The wording of the fault. -/
def StartFault.message : StartFault → String
  | .notFound => "No such file or directory (os error 2)"
  | .nulInArgument => "nul byte found in provided data"

/-- A program that can be given tasks, while a parent serves it. -/
abbrev Program (ρ : Type) := Task → Server ρ → Except StartFault (Run ρ)

/-- Whether a process can be given the argument. -/
def isArgument (s : String) : Bool :=
  !s.toList.contains '\x00'

/-- A program that is only started if its arguments can be given. -/
def Program.guarded {ρ : Type} (arguments : List String) (p : Program ρ) : Program ρ :=
  fun task server =>
    if (arguments ++ task.arguments).all isArgument then p task server
    else .error .nulInArgument

end PipedCompiler.Worker
