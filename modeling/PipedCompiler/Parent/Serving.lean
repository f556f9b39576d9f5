import PipedCompiler.Bridge.Response
import PipedCompiler.Parent.Resolver

/-!
# Serving a compiler

The parent takes what a compiler writes byte by byte.  Every line is a request, which is answered at
once, or the marker before the output; behind the marker nothing is taken for a request any more.
-/

namespace PipedCompiler.Parent

open PipedCompiler.Text PipedCompiler.Bridge

variable {ρ : Type} [Resolver ρ]

/-- The answer to a request.  A failing lookup is answered as if there were no file. -/
def answer (r : Request) (s : ρ) : Response × ρ :=
  match r.kind with
  | .contents =>
    match Resolver.contents r.path s with
    | (.ok found, s) => (.ofContents found, s)
    | (.error _, s) => (.notFound, s)
  | .presence =>
    match Resolver.presence r.path s with
    | (.ok found, s) => (.presence found, s)
    | (.error _, s) => (.presence false, s)

/-- What a compiler can do wrong. -/
inductive ServeFault where
  /-- A line that is neither a request nor the marker. -/
  | strayLine (line : Bytes)
  | badOutput (e : BridgeError)
  /-- Output that is said not to be there. -/
  | absentOutput
  /-- Bytes behind the output. -/
  | trailing (count : Nat)
  deriving Repr, DecidableEq

/-- The wording of a fault. -/
def ServeFault.message : ServeFault → String
  | .strayLine line => "unexpected line from compiler: " ++ quoted (lossyString line)
  | .badOutput e => "bad output frame: " ++ e.message
  | .absentOutput => "output frame marked as not found"
  | .trailing count => s!"{count} unexpected bytes after the output frame"

/-- What serving a compiler has come to. -/
structure Served where
  output : Option Bytes
  /-- How many requests have been answered. -/
  requests : Nat
  deriving Repr, DecidableEq

/-- The output as a text. -/
def Served.text (s : Served) : Option String :=
  s.output.map lossyString

/-- What the parent is at. -/
inductive Phase where
  /-- It takes requests.  The bytes of the current line are given in reverse. -/
  | requests (line : Bytes)
  /-- It takes the output, whose bytes are given in reverse. -/
  | output (frame : Bytes)
  | failed (fault : ServeFault)
  deriving Repr, DecidableEq

/-- A parent that serves a compiler. -/
structure Server (ρ : Type) where
  resolver : ρ
  phase : Phase
  /-- How many requests have been answered. -/
  answered : Nat

namespace Server

/-- A parent that has heard nothing yet. -/
def start (resolver : ρ) : Server ρ :=
  ⟨resolver, .requests [], 0⟩

/-- Takes a line, and gives what is written back. -/
def takeLine (p : Server ρ) (line : Bytes) : Bytes × Server ρ :=
  if isOutputMarker line then ([], { p with phase := .output [] })
  else
    match Request.ofLine? line with
    | none => ([], { p with phase := .failed (.strayLine line) })
    | some r =>
      let (response, resolver) := answer r p.resolver
      (response.encode, ⟨resolver, .requests [], p.answered + 1⟩)

/-- Takes a byte, and gives what is written back. -/
def takeByte (p : Server ρ) (b : UInt8) : Bytes × Server ρ :=
  match p.phase with
  | .requests line =>
    if b = lineFeed then p.takeLine (b :: line).reverse
    else ([], { p with phase := .requests (b :: line) })
  | .output frame => ([], { p with phase := .output (b :: frame) })
  | .failed _ => ([], p)

/-- Takes bytes, and gives what is written back, in parts and in reverse. -/
def takeParts (p : Server ρ) (parts : List Bytes) : Bytes → List Bytes × Server ρ
  | [] => (parts, p)
  | b :: bs =>
    match p.takeByte b with
    | ([], p) => takeParts p parts bs
    | (part, p) => takeParts p (part :: parts) bs

/-- Takes bytes, and gives what is written back. -/
def take (p : Server ρ) (bs : Bytes) : Bytes × Server ρ :=
  let (parts, p) := p.takeParts [] bs
  (parts.reverse.flatten, p)

/-- Takes the end of what the compiler writes.  A line that it cuts short counts as a line. -/
def takeEnd (p : Server ρ) : Bytes × Server ρ :=
  match p.phase with
  | .requests [] => ([], p)
  | .requests line => p.takeLine line.reverse
  | _ => ([], p)

/-- The output that a frame holds. -/
def outputOf (frame : Bytes) : Except ServeFault Bytes :=
  match readContents (.ofBytes frame) with
  | (.error e, _) => .error (.badOutput e)
  | (.ok none, _) => .error .absentOutput
  | (.ok (some body), rest) =>
    match rest.toBytes with
    | [] => .ok body
    | more => .error (.trailing more.length)

/-- What serving has come to, when the compiler writes nothing more. -/
def result (p : Server ρ) : Except ServeFault Served :=
  match p.phase with
  | .requests _ => .ok ⟨none, p.answered⟩
  | .output frame => (outputOf frame.reverse).map fun body => ⟨some body, p.answered⟩
  | .failed fault => .error fault

end Server

/-- Serves all that a compiler writes: what it comes to, and what is written back. -/
def serve (resolver : ρ) (bs : Bytes) : Except ServeFault Served × Bytes :=
  let (written, p) := (Server.start resolver).take bs
  let (last, p) := p.takeEnd
  (p.result, written ++ last)

end PipedCompiler.Parent
