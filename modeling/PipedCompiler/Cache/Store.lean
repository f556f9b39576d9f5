import PipedCompiler.FileTree

/-!
# Stores of compiled output

Output is kept nowhere, in memory, or in a directory with a file for each key.  What a directory
holds is read at most once: a table in front of it keeps what has been read or written.
-/

namespace PipedCompiler.Cache

open PipedCompiler.Text

/-- Where compiled output is kept. -/
inductive Kind where
  | none
  | memory
  | disk
  deriving Repr, DecidableEq

/-- The name of a kind. -/
def Kind.name : Kind → String
  | .none => "none"
  | .memory => "memory"
  | .disk => "disk"

/-- All names of kinds. -/
def Kind.names : List (String × Kind) :=
  [("none", .none), ("memory", .memory), ("disk", .disk)]

/-- A store of compiled output. -/
inductive Store where
  | nothing
  | memory (entries : Table String)
  /-- A directory, with a table in front of it. -/
  | disk (directory : String) (front : Table String)

namespace Store

/-- Opens a store.  A directory is made if there is none. -/
def open? (kind : Kind) (directory : String) (t : FileTree) : Option (Store × FileTree) :=
  match kind with
  | .none => some (.nothing, t)
  | .memory => some (.memory .empty, t)
  | .disk => (t.createDirectories? directory).map fun t => (.disk directory .empty, t)

/-- The file of a key. -/
def entryPath (directory key : String) : String :=
  FileTree.join directory (key ++ ".js")

/-- The text of a file; `none` if there is none, or if it is not a text. -/
def readText? (t : FileTree) (path : String) : Option String :=
  match t.read? path with
  | some bs => (Utf8.decode bs).toOption.map String.ofList
  | none => none

/-- What is kept under a key. -/
def get (s : Store) (key : String) (t : FileTree) : Option String × Store :=
  match s with
  | .nothing => (none, s)
  | .memory entries => (entries.get? key, s)
  | .disk directory front =>
    match front.get? key with
    | some output => (some output, s)
    | none =>
      match readText? t (entryPath directory key) with
      | some output => (some output, .disk directory (front.insert key output))
      | none => (none, s)

/-- Keeps something under a key.  A directory that cannot be written to is left as it is. -/
def put (s : Store) (key output : String) (t : FileTree) : Store × FileTree :=
  match s with
  | .nothing => (s, t)
  | .memory entries => (.memory (entries.insert key output), t)
  | .disk directory front =>
    (.disk directory (front.insert key output),
      (t.write? (entryPath directory key) (bytesOf output)).getD t)

/-- How many keys are kept in memory. -/
def size : Store → Nat
  | .nothing => 0
  | .memory entries => entries.size
  | .disk _ front => front.size

end Store

end PipedCompiler.Cache
