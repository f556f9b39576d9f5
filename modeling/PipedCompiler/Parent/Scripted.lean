import PipedCompiler.Bridge.Client
import PipedCompiler.Parent.Serving

/-!
# Scripted parents

A parent in the same process: it answers from a table, except where it has been told what to send
instead, and it can be made to hang up.
-/

namespace PipedCompiler.Parent

open PipedCompiler.Text PipedCompiler.Bridge

/-- A parent that follows a script. -/
structure Scripted where
  files : Table Bytes
  /-- The bytes to send instead of an answer. -/
  overrides : List (Request × Bytes)
  /-- The number of lines after which writing to the parent fails. -/
  hangsUpAfter : Option Nat
  /-- The failure of writing to a parent that has hung up. -/
  hangUp : IoError
  /-- The lines heard so far, without their line feeds, the last one first. -/
  heard : List Bytes

namespace Scripted

/-- What is sent in answer to a request. -/
def reply (p : Scripted) (r : Request) : Bytes :=
  match p.overrides.find? (·.1 == r) with
  | some (_, bs) => bs
  | none => (answer r p.files).1.encode

/-- Hears a line. -/
def hear (line : Bytes) (p : Scripted) : Except IoError (List Delivery) × Scripted :=
  if p.hangsUpAfter = some p.heard.length then (.error p.hangUp, p)
  else
    let deliveries := match Request.ofLine? line with
      | some r => [.bytes (p.reply r)]
      | none => []
    (.ok deliveries, { p with heard := chomp line :: p.heard })

instance : Outlet Scripted where
  send := hear

/-- How long a chain of imports can get: every link takes a file of its own, or bytes that are sent
instead of an answer. -/
def importLimit (p : Scripted) : Nat :=
  p.files.size + p.overrides.foldr (fun o n => o.2.length + n) 0 + 2

end Scripted

end PipedCompiler.Parent
