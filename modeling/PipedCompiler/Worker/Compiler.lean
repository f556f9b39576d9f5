import PipedCompiler.Compile.Child
import PipedCompiler.Worker.Basic

/-!
# Compiler processes at work

A compiler process and the parent that serves it, each writing to the other.
-/

namespace PipedCompiler.Worker

open PipedCompiler.Text PipedCompiler.Bridge PipedCompiler.Compile PipedCompiler.Parent

variable {ρ : Type} [Resolver ρ]

/-- A parent takes what is written, and delivers what it writes back. -/
instance : Outlet (Server ρ) where
  send line server :=
    let (reply, server) := server.take line
    (.ok [.bytes reply], server)

/-- How long a chain of imports a process can follow before it runs out of memory. -/
def importLimit : Nat := 1000000

/-- What is shown of diagnostics, one a line. -/
def shownLines (ds : List Diagnostic) : Bytes :=
  ds.flatMap fun d => bytesOf (d.text ++ "\n")

/-- How a process ends whose compile stops short. -/
def endingOf : Halt → Ending
  | .unreadableWord => .exited 101
  | .deepImports => .killed

/-- The client of a process with a task. -/
def clientOf (limit : Option Duration) (server : Server ρ) : Client (Server ρ) :=
  match limit with
  | some limit => .startWithin limit ⟨[], .closed⟩ server
  | none => .start ⟨[], .closed⟩ server

/-- The compiler process. -/
def compiler : Program ρ := fun task server =>
  let (run, client) :=
    runChild task.options importLimit none task.root (clientOf task.limit server)
  match run with
  | .ok run =>
    let server := (client.outlet.take run.output).2
    .ok ⟨server.takeEnd.2, shownLines run.reported, 0, .exited run.exit.code⟩
  | .error halt => .ok ⟨client.outlet.takeEnd.2, [], 0, endingOf halt⟩

end PipedCompiler.Worker
