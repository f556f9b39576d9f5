import PipedCompiler.Bridge.Client

/-!
# Transcripts

An outlet that keeps what is written to it and delivers nothing.  It can be made to fail once.
-/

namespace PipedCompiler.Bridge

open PipedCompiler.Text

/-- A step of sending a line that can fail. -/
inductive SendStep where
  /-- Nothing is written. -/
  | write
  /-- The line is written, but it is not known to have left. -/
  | flush
  deriving Repr, DecidableEq

/-- A failure that an outlet is to have. -/
structure SendFailure where
  /-- How many lines are sent before the failing one. -/
  after : Nat
  step : SendStep
  error : IoError
  deriving Repr, DecidableEq

/-- An outlet that keeps what is written to it. -/
structure Transcript where
  /-- The lines, the last one first. -/
  lines : List Bytes
  /-- How many lines were to be sent. -/
  tried : Nat
  failure : Option SendFailure
  deriving Repr, DecidableEq

namespace Transcript

/-- An outlet to which nothing has been written. -/
def start (failure : Option SendFailure) : Transcript :=
  ⟨[], 0, failure⟩

/-- What has been written. -/
def written (t : Transcript) : Bytes :=
  t.lines.reverse.flatten

/-- Sends a line. -/
def send (line : Bytes) (t : Transcript) : Except IoError (List Delivery) × Transcript :=
  let kept := { t with lines := line :: t.lines, tried := t.tried + 1 }
  match t.failure.filter (·.after = t.tried) with
  | none => (.ok [], kept)
  | some ⟨_, .write, e⟩ => (.error e, { t with tried := t.tried + 1 })
  | some ⟨_, .flush, e⟩ => (.error e, kept)

instance : Outlet Transcript where
  send := send

end Transcript

end PipedCompiler.Bridge
