import PipedCompiler.Worker.Basic

/-!
# Processes from within

A process that is served by a parent, step by step: it writes to the parent, reads what the parent
has written back, and says things beside its output.
-/

namespace PipedCompiler.Worker

open PipedCompiler.Text PipedCompiler.Parent

/-- A process at some moment. -/
structure Machine (ρ : Type) where
  server : Server ρ
  /-- What the parent has written and the process has not read yet. -/
  input : Bytes
  /-- What the process has said, the last of it first. -/
  said : List Bytes
  /-- How long the process has waited, in milliseconds. -/
  elapsed : Nat

/-- Where a process writes to. -/
inductive Sink where
  | parent
  | errors
  /-- What is written here is lost. -/
  | nowhere
  deriving Repr, DecidableEq

namespace Machine

variable {ρ : Type} [Resolver ρ]

/-- A process at its start. -/
def start (server : Server ρ) : Machine ρ :=
  ⟨server, [], [], 0⟩

/-- Writes. -/
def write (m : Machine ρ) (sink : Sink) (bs : Bytes) : Machine ρ :=
  match sink with
  | .parent =>
    let (reply, server) := m.server.take bs
    { m with server, input := m.input ++ reply }
  | .errors => { m with said := bs :: m.said }
  | .nowhere => m

/-- Whether the parent has stopped listening. -/
def isDeserted (m : Machine ρ) : Bool :=
  match m.server.phase with
  | .failed _ => true
  | _ => false

/-- Reads `count` bytes, or all up to the end.  As the parent only writes when it is asked, a process
that wants more than there is waits for ever, unless the parent has stopped listening. -/
def read? (m : Machine ρ) (count : Nat) : Option (Bytes × Machine ρ) :=
  if count ≤ m.input.length || m.isDeserted then
    some (m.input.take count, { m with input := m.input.drop count })
  else none

/-- Waits. -/
def sleep (m : Machine ρ) (millis : Nat) : Machine ρ :=
  { m with elapsed := m.elapsed + millis }

/-- What the process leaves behind when it ends. -/
def finish (m : Machine ρ) (ending : Ending) : Run ρ :=
  ⟨m.server.takeEnd.2, m.said.reverse.flatten, m.elapsed, ending⟩

end Machine

end PipedCompiler.Worker
