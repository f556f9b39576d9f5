import PipedCompiler.Cache.Digest
import PipedCompiler.Cache.Store
import PipedCompiler.Compile.Child
import PipedCompiler.Diagnostic.Reading
import PipedCompiler.Session.Error
import PipedCompiler.Text.Lines

/-!
# Sessions

The parent compiles a root by a process of its own, which it serves while the process runs.  Output
is kept under the digest of what the root holds, and is not made again while it is there.
-/

namespace PipedCompiler.Session

open PipedCompiler.Text PipedCompiler.Parent PipedCompiler.Compile PipedCompiler.Worker

/-- What a session makes. -/
structure SessionOutput where
  root : String
  text : String
  /-- How many requests have been answered for it. -/
  requests : Nat
  /-- Whether it has been kept from earlier. -/
  cached : Bool
  deriving Repr, DecidableEq

/-- The result of a session. -/
abbrev SessionResult := Except SessionError SessionOutput

/-- The output of a process that says all went well. -/
def outputOf (served : Except ServeFault Served) : Except SessionError (String × Nat) :=
  match served with
  | .error fault => .error (.io (.fault fault))
  | .ok served =>
    match served.text with
    | some text => .ok (text, served.requests)
    | none => .error (.io .noOutput)

/-- The diagnostics among the lines of what a process has said. -/
def diagnosticsOf (errors : String) : List Diagnostic :=
  (lines errors.toList).filterMap fun line => Diagnostic.ofLine? (String.ofList line)

/-- What an exit code means, together with what the parent has got and what the process has said. -/
def outcomeOf (root : String) (served : Except ServeFault Served) (errors : String) (code : Nat) :
    Except SessionError (String × Nat) :=
  let said := String.ofList (trim errors.toList)
  if code = Exit.success.code then outputOf served
  else if code = Exit.compilationFailed.code then
    .error (.compilationFailed root (diagnosticsOf errors))
  else if code = Exit.bridgeFailed.code then .error (.bridgeFailed root said)
  else .error (.childFailed root code said)

/-- What becomes of a process that has run to its end. -/
def conclude {ρ : Type} [Resolver ρ] (root : String) (r : Run ρ) :
    Except SessionError (String × Nat) :=
  match r.ending with
  | .exited code => outcomeOf root r.server.result (lossyString r.errors) code
  | .killed => .error (.aborted root)
  | .endless => .error (.aborted root)

/-- Whether a process takes longer than it may. -/
def isLate {ρ : Type} (limit : Duration) (r : Run ρ) : Bool :=
  r.ending = .endless || limit.millis ≤ r.elapsed

/-- The result of a process. -/
def judge {ρ : Type} [Resolver ρ] (root : String) (limit : Option Duration) (r : Run ρ) :
    Except SessionError (String × Nat) :=
  match limit with
  | some limit => if isLate limit r then .error (.timeout root limit) else conclude root r
  | none => conclude root r

/-- How roots are compiled. -/
structure Compiler where
  program : Program Library
  options : CompileOptions
  /-- How long a process may take. -/
  limit : Option Duration

/-- What a session depends on and changes. -/
structure Context where
  library : Library
  store : Cache.Store

namespace Context

/-- The context with another tree of files. -/
def withTree (c : Context) (t : FileTree) : Context :=
  { c with library := { c.library with world := { c.library.world with tree := t } } }

/-- The tree of files. -/
def tree (c : Context) : FileTree :=
  c.library.world.tree

/-- What is kept under a key. -/
def kept (c : Context) (key : String) : Option String × Context :=
  let (output, store) := c.store.get key c.tree
  (output, { c with store })

/-- Keeps something under a key. -/
def keep (c : Context) (key output : String) : Context :=
  let (store, t) := c.store.put key output c.tree
  { c with store }.withTree t

end Context

namespace Compiler

/-- The key of a root.  A root that cannot be read has none. -/
def key? (k : Compiler) (root : String) (c : Context) : Option String × Context :=
  let (source, library) := c.library.contents root
  let key := match source with
    | .ok (some source) => some (Cache.key root source k.options)
    | _ => none
  (key, { c with library })

/-- A session that has been started. -/
inductive Started where
  /-- The output has been kept from earlier. -/
  | kept (output : SessionOutput)
  /-- A process has to make the output. -/
  | open_ (root : String) (key : Option String)

/-- Starts a session: looks for output that has been kept. -/
def start (k : Compiler) (root : String) (c : Context) : Started × Context :=
  match k.key? root c with
  | (none, c) => (.open_ root none, c)
  | (some key, c) =>
    match c.kept key with
    | (some text, c) => (.kept ⟨root, text, 0, true⟩, c)
    | (none, c) => (.open_ root (some key), c)

/-- Has a process make the output of a root. -/
def run (k : Compiler) (root : String) (c : Context) :
    Except SessionError (String × Nat) × Context :=
  match k.program ⟨k.options, k.limit, root⟩ (Server.start c.library) with
  | .error fault => (.error (.spawnFailed fault.message), c)
  | .ok r => (judge root k.limit r, { c with library := r.server.resolver })

/-- Finishes a session: has a process make the output if need be, and keeps it. -/
def finish (k : Compiler) (s : Started) (c : Context) : SessionResult × Context :=
  match s with
  | .kept output => (.ok output, c)
  | .open_ root key =>
    match k.run root c with
    | (.error e, c) => (.error e, c)
    | (.ok (text, requests), c) =>
      let c := match key with
        | some key => c.keep key text
        | none => c
      (.ok ⟨root, text, requests, false⟩, c)

/-- Compiles a root. -/
def compile (k : Compiler) (root : String) (c : Context) : SessionResult × Context :=
  let (s, c) := k.start root c
  k.finish s c

/-- Starts sessions in order. -/
def startAll (k : Compiler) : List String → Context → List Started × Context
  | [], c => ([], c)
  | root :: roots, c =>
    let (s, c) := k.start root c
    let (others, c) := startAll k roots c
    (s :: others, c)

/-- Finishes sessions in order.  Whenever one is finished, the next root is started. -/
def finishAll (k : Compiler) : List Started → (waiting : List String) → Context →
    List SessionResult × Context
  | [], _, c => ([], c)
  | s :: running, [], c =>
    let (result, c) := k.finish s c
    let (others, c) := finishAll k running [] c
    (result :: others, c)
  | s :: running, root :: waiting, c =>
    let (result, c) := k.finish s c
    let (next, c) := k.start root c
    let (others, c) := finishAll k (running ++ [next]) waiting c
    (result :: others, c)
termination_by running waiting => running.length + waiting.length
decreasing_by all_goals simp

/-- Compiles roots, at most `limit` of them at once but always at least one.  The results are in the
order of the roots. -/
def compileAll (k : Compiler) (roots : List String) (limit : Nat) (c : Context) :
    List SessionResult × Context :=
  let width := max limit 1
  let (running, c) := k.startAll (roots.take width) c
  k.finishAll running (roots.drop width) c

end Compiler

end PipedCompiler.Session
