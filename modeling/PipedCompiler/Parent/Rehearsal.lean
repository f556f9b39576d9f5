import PipedCompiler.Compile.Child
import PipedCompiler.Parent.Scripted

/-!
# Rehearsals

Compiles over a bridge to a scripted parent, one root after the other with the same client.
-/

namespace PipedCompiler.Parent

open PipedCompiler.Text PipedCompiler.Bridge PipedCompiler.Compile

/-- A client that talks to a scripted parent and has heard nothing yet. -/
def Scripted.client (p : Scripted) : Client Scripted :=
  .start ⟨[], .closed⟩ p

/-- One compile of a rehearsal. -/
structure Rehearsed where
  compile : BridgedCompile
  /-- The lines that the parent has heard, in order. -/
  heard : List Bytes
  /-- How many questions have been answered so far, those of earlier compiles included. -/
  roundTrips : Nat
  poisoned : Bool

/-- The parent once it has forgotten what it has heard. -/
def Scripted.forget (p : Scripted) : Scripted :=
  { p with heard := [] }

/-- Compiles roots one after the other. -/
def rehearseFrom (options : CompileOptions) (depth : Nat) :
    List String → Client Scripted → Except Halt (List Rehearsed)
  | [], _ => .ok []
  | root :: roots, c => do
    let (compile, c) := compileOver options depth root c
    let this : Rehearsed := ⟨← compile, c.outlet.heard.reverse, c.roundTrips, c.poisoned⟩
    return this :: (← rehearseFrom options depth roots { c with outlet := c.outlet.forget })

/-- Compiles roots one after the other, over one bridge to a scripted parent. -/
def rehearse (options : CompileOptions) (roots : List String) (p : Scripted) :
    Except Halt (List Rehearsed) :=
  rehearseFrom options (roots.length * p.importLimit) roots p.client

/-- Runs a compiler process over a bridge to a scripted parent. -/
def rehearseChild (options : CompileOptions) (failing : Option SendStep) (root : String)
    (p : Scripted) : Except Halt ChildRun :=
  (runChild options p.importLimit failing root p.client).1

end PipedCompiler.Parent
