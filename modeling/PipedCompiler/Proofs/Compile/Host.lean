import PipedCompiler.Compile.Host

/-!
# What a host knows

A host never unlearns and never learns anything that is not so.  So wherever its files stay as they
are, what it says about a path does not depend on what it has been asked before.
-/

namespace PipedCompiler.Compile

open PipedCompiler.Text PipedCompiler.Bridge

namespace Dialogue

variable {α γ : Type} (files : String → Option Bytes)

@[simp] theorem done_bind (a : α) (f : α → Dialogue γ) : (done a).bind f = f a := rfl

@[simp] theorem map_done (f : α → γ) (a : α) : f <$> done a = done (f a) := rfl

@[simp] theorem map_contents (f : α → γ) (path : String) (next : Option Bytes → Dialogue α) :
    f <$> contents path next = contents path fun reply ↦ f <$> next reply := rfl

@[simp] theorem map_presence (f : α → γ) (path : String) (next : Bool → Dialogue α) :
    f <$> presence path next = presence path fun found ↦ f <$> next found := rfl

@[simp] theorem contents_bind (path : String) (next : Option Bytes → Dialogue α)
    (f : α → Dialogue γ) :
    (contents path next).bind f = contents path fun reply ↦ (next reply).bind f := rfl

@[simp] theorem presence_bind (path : String) (next : Bool → Dialogue α) (f : α → Dialogue γ) :
    (presence path next).bind f = presence path fun reply ↦ (next reply).bind f := rfl

@[simp] theorem run_done (a : α) : (done a).run files = a := rfl

@[simp] theorem run_map (f : α → γ) (d : Dialogue α) : (f <$> d).run files = f (d.run files) := by
  rw [map_eq_pure_bind, bind_eq, run_bind, pure_eq, run_done]

end Dialogue

namespace Host

/-- The text that some bytes count as. -/
def textOf (bs : Bytes) : List Char :=
  match SourceFile.decode bs with
  | .ok text => text
  | .error _ => []

/-- Whether all that a host knows is so. -/
def Truthful (files : String → Option Bytes) (h : Host) : Prop :=
  ∀ path text, h.known.get? path = some text → text = (files path).map textOf

variable {files : String → Option Bytes} {h : Host}

/-! ## What a host asks -/

/-- What is said about the bytes of a file if they are not a text. -/
def complaint? (path : String) (bs : Bytes) : Option Diagnostic :=
  match SourceFile.decode bs with
  | .ok _ => none
  | .error e => some (undecodable path e)

/-- The host once it has been told what a path holds. -/
def hear (h : Host) (path : String) (reply : Option Bytes) : Host :=
  { h with
    known := h.known.insert path (reply.map textOf)
    diagnostics := h.diagnostics ++ (reply.bind (complaint? path)).toList }

theorem hear_none (path : String) : h.hear path none = h.learn path none := by
  simp [hear, learn]

/-- Bytes are read as the text that they count as. -/
theorem run_decode (path : String) (bs : Bytes) :
    (decode path bs).run h =
      .done (textOf bs, { h with diagnostics := h.diagnostics ++ (complaint? path bs).toList }) := by
  rw [StateT.run, decode, textOf, complaint?]
  cases SourceFile.decode bs with
  | ok text => simp
  | error e => rfl

/-- What is known is not asked for. -/
theorem load_known {path : String} {text : Option (List Char)}
    (hknown : h.known.get? path = some text) : (load path).run h = .done (text, h) := by
  simp [load, hknown]

theorem load_new {path : String} (hnew : h.known.get? path = none) :
    (load path).run h = .contents path fun reply ↦ .done (reply.map textOf, h.hear path reply) := by
  simp only [load, StateT.run_bind, StateT.run_get, StateT.run_monadLift, monadLift_self,
    Dialogue.askContents, Dialogue.pure_eq, Dialogue.bind_eq, Dialogue.done_bind,
    Dialogue.contents_bind, hnew, Dialogue.contents.injEq, true_and]
  funext reply
  cases reply with
  | none => simp [hear_none]
  | some bs => simp [run_decode, hear, learn]

/-- If something is known about a path, it is not asked for. -/
theorem exists_known {path : String} {text : Option (List Char)}
    (hknown : h.known.get? path = some text) : (exists? path).run h = .done (text.isSome, h) := by
  simp [exists?, hknown]

theorem exists_new {path : String} (hnew : h.known.get? path = none) :
    (exists? path).run h =
      if h.options.asksExistence then
        .presence path fun found ↦ .done (found, if found then h else h.hear path none)
      else .contents path fun reply ↦ .done (reply.isSome, h.hear path reply) := by
  cases hasks : h.options.asksExistence with
  | false => simp [exists?, hnew, hasks, load_new hnew]
  | true =>
      simp only [exists?, StateT.run_bind, StateT.run_get, StateT.run_monadLift, monadLift_self,
        Dialogue.askPresence, Dialogue.pure_eq, Dialogue.bind_eq, Dialogue.done_bind,
        Dialogue.presence_bind, hnew, hasks, ↓reduceIte, Dialogue.presence.injEq, true_and]
      funext found
      cases found with
      | false => simp [hear_none]
      | true => rfl

/-! ## What a host answers -/

/-- A host that knows nothing knows nothing wrong. -/
theorem truthful_start (options : CompileOptions) : (start options).Truthful files := by
  intro path text hknown
  cases hknown

/-- What comes of asking a host: the right answer, and a host that has only learnt more. -/
structure Told (files : String → Option Bytes) (h : Host) {α : Type} (answer : α)
    (result : α × Host) : Prop where
  answer : result.1 = answer
  truthful : result.2.Truthful files
  options : result.2.options = h.options

/-- What a host is told about files as they are is so. -/
theorem Truthful.hear (ht : h.Truthful files) (path : String) :
    (h.hear path (files path)).Truthful files := by
  intro other known hknown
  rw [Host.hear, Table.get?_insert] at hknown
  split at hknown
  · next heq =>
    subst heq
    exact (Option.some.inj hknown).symm
  · exact ht other known hknown

/-- A truthful host gives the text of a file. -/
theorem told_load (ht : h.Truthful files) (path : String) :
    Told files h ((files path).map textOf) (((load path).run h).run files) := by
  cases hknown : h.known.get? path with
  | some text =>
      rw [load_known hknown]
      exact ⟨ht path text hknown, ht, rfl⟩
  | none =>
      rw [load_new hknown]
      exact ⟨rfl, ht.hear path, rfl⟩

/-- A truthful host tells whether there is a file. -/
theorem told_exists (ht : h.Truthful files) (path : String) :
    Told files h (files path).isSome (((exists? path).run h).run files) := by
  cases hknown : h.known.get? path with
  | some text =>
      rw [exists_known hknown]
      refine ⟨?_, ht, rfl⟩
      rw [Dialogue.run, ht path text hknown, Option.isSome_map]
  | none =>
      rw [exists_new hknown]
      have hheard := ht.hear path
      split
      · rw [Dialogue.run]
        cases hfile : files path with
        | none =>
            rw [hfile] at hheard
            exact ⟨rfl, hheard, rfl⟩
        | some bs => exact ⟨rfl, ht, rfl⟩
      · exact ⟨rfl, hheard, rfl⟩

/-- A file is given as a source with the text that it is read as. -/
theorem run_sourceFile (path : String) (target : LanguageTarget) :
    ((sourceFile path target).run h).run files =
      ((((load path).run h).run files).1.map fun chars ↦ ⟨path, chars, target⟩,
        (((load path).run h).run files).2) := by
  simp [sourceFile]

/-- A truthful host gives a file as a source. -/
theorem told_sourceFile (ht : h.Truthful files) (path : String) (target : LanguageTarget) :
    Told files h ((files path).map fun bs ↦ ⟨path, textOf bs, target⟩)
      (((sourceFile path target).run h).run files) := by
  obtain ⟨hanswer, htruthful, hoptions⟩ := told_load ht path
  rw [run_sourceFile]
  refine ⟨?_, htruthful, hoptions⟩
  rw [hanswer, Option.map_map]
  rfl

end Host

end PipedCompiler.Compile
