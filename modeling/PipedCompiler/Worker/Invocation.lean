import PipedCompiler.Worker.Compiler
import PipedCompiler.Worker.Shell

/-!
# Invocations

Which program a session runs: this one, as a compiler process, or another one, by its path and some
arguments to which those of the task are added.
-/

namespace PipedCompiler.Worker

open PipedCompiler.Text PipedCompiler.Parent

/-- A program to run. -/
inductive Invocation where
  /-- This program, as a compiler process. -/
  | own
  | other (path : String) (arguments : List String)
  deriving Repr, DecidableEq

namespace Invocation

/-- The arguments before those of the task. -/
def arguments : Invocation → List String
  | .own => ["child"]
  | .other _ arguments => arguments

/-- The directories in which the programs of the system are. -/
def systemDirectories : List String := ["/bin/", "/usr/bin/", ""]

/-- The name of a program of the system. -/
def systemName? (path : String) : Option String :=
  systemDirectories.findSome? fun directory =>
    if directory.toList.isPrefixOf path.toList then
      let name := path.toList.drop directory.length
      if name.contains '/' then none else some (String.ofList name)
    else none

variable {ρ : Type} [Resolver ρ]

/-- A shell, which runs the script that it is given. -/
def shell (arguments : List String) (m : Machine ρ) : Run ρ :=
  match arguments with
  | "-c" :: script :: parameters => Script.run script parameters m
  | _ => m.finish (.exited 2)

/-- Runs a program of the system. -/
def runSystem? (name : String) (arguments : List String) (m : Machine ρ) : Option (Run ρ) :=
  if name = "sh" || name = "dash" || name = "bash" then some (shell arguments m)
  else
    (Utility.named? name).map fun utility =>
      match utility .standard arguments m with
      | .goes m status => m.finish (.exited status)
      | .ends m ending => m.finish ending

/-- Another program with its arguments. -/
def another (path : String) (arguments : List String) : Program ρ := fun task server =>
  let run := (systemName? path).bind fun name =>
    runSystem? name (arguments ++ task.arguments) (.start server)
  match run with
  | some run => .ok run
  | none => .error .notFound

/-- The program. -/
def program (i : Invocation) : Program ρ :=
  match i with
  | .own => compiler.guarded i.arguments
  | .other path arguments => (another path arguments).guarded (path :: arguments)

end Invocation

end PipedCompiler.Worker
