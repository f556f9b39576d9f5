import PipedCompiler.Bridge.Client
import PipedCompiler.Table

/-!
# Dialogues

What a compile does towards the outside is to ask about files.  A dialogue is a computation that may
ask, kept as the tree of its questions: it can be run against files that stay as they are, or over a
bridge that has a state and may fail.
-/

namespace PipedCompiler.Compile

open PipedCompiler.Text PipedCompiler.Bridge

/-- A computation that may ask about files. -/
inductive Dialogue (α : Type) where
  | done (result : α)
  /-- Asks what a file holds. -/
  | contents (path : String) (next : Option Bytes → Dialogue α)
  /-- Asks whether there is a file. -/
  | presence (path : String) (next : Bool → Dialogue α)

/-- What can be asked about files. -/
class Source (β : Type) where
  contents : String → β → Except BridgeError (Option Bytes) × β
  presence : String → β → Except BridgeError Bool × β

namespace Dialogue

variable {α γ : Type}

/-- Goes on with the result of a dialogue. -/
def bind : Dialogue α → (α → Dialogue γ) → Dialogue γ
  | .done a, f => f a
  | .contents path next, f => .contents path fun reply => (next reply).bind f
  | .presence path next, f => .presence path fun reply => (next reply).bind f

instance : Monad Dialogue where
  pure := .done
  bind := bind

@[simp] theorem pure_eq (a : α) : (Pure.pure a : Dialogue α) = .done a := rfl

@[simp] theorem bind_eq (d : Dialogue α) (f : α → Dialogue γ) : d >>= f = d.bind f := rfl

@[simp] theorem bind_done (d : Dialogue α) : d.bind .done = d := by
  induction d with
  | done a => rfl
  | contents path next ih => simp [bind, ih]
  | presence path next ih => simp [bind, ih]

theorem bind_assoc {δ : Type} (d : Dialogue α) (f : α → Dialogue γ) (g : γ → Dialogue δ) :
    (d.bind f).bind g = d.bind fun a => (f a).bind g := by
  induction d with
  | done a => rfl
  | contents path next ih => simp [bind, ih]
  | presence path next ih => simp [bind, ih]

instance : LawfulMonad Dialogue :=
  LawfulMonad.mk' Dialogue (fun d => bind_done d) (fun _ _ => rfl) (fun d f g => bind_assoc d f g)

/-- Asks what a file holds. -/
def askContents (path : String) : Dialogue (Option Bytes) :=
  .contents path .done

/-- Asks whether there is a file. -/
def askPresence (path : String) : Dialogue Bool :=
  .presence path .done

/-- The result of a dialogue when the files are these. -/
def run (files : String → Option Bytes) : Dialogue α → α
  | .done a => a
  | .contents path next => (next (files path)).run files
  | .presence path next => (next (files path).isSome).run files

/-- The questions of a dialogue when the files are these. -/
def requests (files : String → Option Bytes) : Dialogue α → List Request
  | .done _ => []
  | .contents path next => ⟨.contents, path⟩ :: (next (files path)).requests files
  | .presence path next => ⟨.presence, path⟩ :: (next (files path).isSome).requests files

/-- Runs a dialogue over a source, up to the first failure. -/
def runOver {β : Type} [Source β] : Dialogue α → β → Except BridgeError α × β
  | .done a, b => (.ok a, b)
  | .contents path next, b =>
    match Source.contents path b with
    | (.ok reply, b) => (next reply).runOver b
    | (.error e, b) => (.error e, b)
  | .presence path next, b =>
    match Source.presence path b with
    | (.ok reply, b) => (next reply).runOver b
    | (.error e, b) => (.error e, b)

@[simp] theorem run_bind (files : String → Option Bytes) (d : Dialogue α) (f : α → Dialogue γ) :
    (d.bind f).run files = (f (d.run files)).run files := by
  induction d with
  | done a => rfl
  | contents path next ih => exact ih _
  | presence path next ih => exact ih _

theorem requests_bind (files : String → Option Bytes) (d : Dialogue α) (f : α → Dialogue γ) :
    (d.bind f).requests files = d.requests files ++ (f (d.run files)).requests files := by
  induction d with
  | done a => rfl
  | contents path next ih => simp [bind, requests, run, ih]
  | presence path next ih => simp [bind, requests, run, ih]

end Dialogue

instance {σ : Type} [Outlet σ] : Source (Client σ) where
  contents path c := c.readContents path
  presence path c := c.readPresence path

/-- A source that looks files up in a table and keeps the questions. -/
structure Shelf where
  files : Table Bytes
  /-- The failure of every question, while there is one. -/
  failure : Option BridgeError
  /-- The questions, the last one first. -/
  asked : List Request

namespace Shelf

/-- The shelf after one more question. -/
def ask (s : Shelf) (r : Request) : Shelf :=
  { s with asked := r :: s.asked }

/-- The answer, unless every question fails. -/
def reply {α : Type} (s : Shelf) (answer : α) : Except BridgeError α :=
  match s.failure with
  | some e => .error e
  | none => .ok answer

instance : Source Shelf where
  contents path s := (s.reply (s.files.get? path), s.ask ⟨.contents, path⟩)
  presence path s := (s.reply (s.files.contains path), s.ask ⟨.presence, path⟩)

end Shelf

end PipedCompiler.Compile
