import PipedCompiler.Compile.Basic

/-!
# Sources that may fail

A source of files is honest if it never gives a wrong answer; it may fail to give one.  A dialogue
over an honest source comes to what it comes to with the files at hand, unless one of its questions
fails, and then it comes to that failure.
-/

namespace PipedCompiler.Compile

open PipedCompiler.Text PipedCompiler.Bridge

section Source

variable {α β : Type} [Source β]

/-- Whether a source in a good state answers from these files, as far as it answers, and stays in a
good state. -/
structure Honest (files : String → Option Bytes) (good : β → Prop) : Prop where
  contents : ∀ path b reply b', good b → Source.contents path b = (.ok reply, b') →
    reply = files path ∧ good b'
  presence : ∀ path b reply b', good b → Source.presence path b = (.ok reply, b') →
    reply = (files path).isSome ∧ good b'

/-- Whether a question of a dialogue fails, when the ones before it have been answered. -/
inductive Breaks : Dialogue α → β → BridgeError → Prop
  | contents {path : String} {next : Option Bytes → Dialogue α} {b b' : β} {e : BridgeError}
      (hask : Source.contents path b = (.error e, b')) : Breaks (.contents path next) b e
  | presence {path : String} {next : Bool → Dialogue α} {b b' : β} {e : BridgeError}
      (hask : Source.presence path b = (.error e, b')) : Breaks (.presence path next) b e
  | afterContents {path : String} {next : Option Bytes → Dialogue α} {b b' : β} {e : BridgeError}
      {reply : Option Bytes} (hask : Source.contents path b = (.ok reply, b'))
      (hrest : Breaks (next reply) b' e) : Breaks (.contents path next) b e
  | afterPresence {path : String} {next : Bool → Dialogue α} {b b' : β} {e : BridgeError}
      {reply : Bool} (hask : Source.presence path b = (.ok reply, b'))
      (hrest : Breaks (next reply) b' e) : Breaks (.presence path next) b e

/-- A dialogue over a source comes to a failure just if a question fails. -/
theorem runOver_eq_error_iff {d : Dialogue α} {b : β} {e : BridgeError} :
    (d.runOver b).1 = .error e ↔ Breaks d b e := by
  constructor
  · intro hrun
    induction d generalizing b with
    | done a => cases hrun
    | contents path next ih =>
        rw [Dialogue.runOver] at hrun
        rcases hask : Source.contents path b with ⟨e' | reply, b'⟩
        · rw [hask] at hrun
          cases hrun
          exact .contents hask
        · rw [hask] at hrun
          exact .afterContents hask (ih reply hrun)
    | presence path next ih =>
        rw [Dialogue.runOver] at hrun
        rcases hask : Source.presence path b with ⟨e' | reply, b'⟩
        · rw [hask] at hrun
          cases hrun
          exact .presence hask
        · rw [hask] at hrun
          exact .afterPresence hask (ih reply hrun)
  · intro hbreaks
    induction hbreaks with
    | contents hask => rw [Dialogue.runOver, hask]
    | presence hask => rw [Dialogue.runOver, hask]
    | afterContents hask _ ih => rw [Dialogue.runOver, hask]; exact ih
    | afterPresence hask _ ih => rw [Dialogue.runOver, hask]; exact ih

section Honest

variable {files : String → Option Bytes} {good : β → Prop}

/-- What a dialogue comes to over an honest source is what it comes to with the files at hand. -/
theorem Honest.run_eq (hhonest : Honest files good) {d : Dialogue α} {a : α} {b b' : β}
    (hb : good b) (hrun : d.runOver b = (.ok a, b')) : d.run files = a ∧ good b' := by
  induction d generalizing b with
  | done a => cases hrun; exact ⟨rfl, hb⟩
  | contents path next ih =>
      rw [Dialogue.runOver] at hrun
      rcases hask : Source.contents path b with ⟨e | reply, b₁⟩
      · rw [hask] at hrun
        cases hrun
      · rw [hask] at hrun
        obtain ⟨rfl, hb₁⟩ := hhonest.contents path b reply b₁ hb hask
        exact ih _ hb₁ hrun
  | presence path next ih =>
      rw [Dialogue.runOver] at hrun
      rcases hask : Source.presence path b with ⟨e | reply, b₁⟩
      · rw [hask] at hrun
        cases hrun
      · rw [hask] at hrun
        obtain ⟨rfl, hb₁⟩ := hhonest.presence path b reply b₁ hb hask
        exact ih _ hb₁ hrun

/-- Over an honest source that answers all its questions, a dialogue comes to what it comes to with
the files at hand. -/
theorem Honest.runOver (hhonest : Honest files good) {d : Dialogue α} {b : β} (hb : good b)
    (hholds : ∀ e, ¬ Breaks d b e) : (d.runOver b).1 = .ok (d.run files) := by
  rcases hrun : d.runOver b with ⟨e | a, b'⟩
  · exact absurd (runOver_eq_error_iff.mp (congrArg Prod.fst hrun)) (hholds e)
  · rw [(hhonest.run_eq hb hrun).1]

end Honest

end Source

/-! ## Shelves -/

theorem Shelf.reply_eq_ok {α : Type} {s : Shelf} {answer reply : α}
    (h : s.reply answer = .ok reply) : reply = answer := by
  rw [Shelf.reply] at h
  split at h
  · cases h
  · exact (Except.ok.inj h).symm

theorem Shelf.reply_of_holds {α : Type} {s : Shelf} (hs : s.failure = none) (answer : α) :
    s.reply answer = .ok answer := by
  rw [Shelf.reply, hs]

/-- A shelf answers from its files, unless every question fails. -/
theorem honest_shelf (files : Table Bytes) :
    Honest files.get? fun s : Shelf ↦ s.files = files where
  contents path s reply s' hs hask := by
    obtain ⟨hreply, rfl⟩ := Prod.mk.inj hask
    rw [Shelf.reply_eq_ok hreply, hs]
    exact ⟨rfl, hs⟩
  presence path s reply s' hs hask := by
    obtain ⟨hreply, rfl⟩ := Prod.mk.inj hask
    rw [Shelf.reply_eq_ok hreply, hs]
    exact ⟨rfl, hs⟩

/-- Where no question fails, no dialogue breaks off. -/
theorem not_breaks_shelf {α : Type} {d : Dialogue α} {s : Shelf} {e : BridgeError}
    (hs : s.failure = none) : ¬ Breaks d s e := by
  intro hbreaks
  induction hbreaks with
  | contents hask =>
      obtain ⟨hreply, -⟩ := Prod.mk.inj hask
      cases (Shelf.reply_of_holds hs _).symm.trans hreply
  | presence hask =>
      obtain ⟨hreply, -⟩ := Prod.mk.inj hask
      cases (Shelf.reply_of_holds hs _).symm.trans hreply
  | afterContents hask _ ih =>
      obtain ⟨-, rfl⟩ := Prod.mk.inj hask
      exact ih hs
  | afterPresence hask _ ih =>
      obtain ⟨-, rfl⟩ := Prod.mk.inj hask
      exact ih hs

/-- Where every question fails, each dialogue that asks anything breaks off. -/
theorem breaks_shelf {α : Type} {d : Dialogue α} {s : Shelf} {e : BridgeError}
    (files : String → Option Bytes) (hasks : d.requests files ≠ []) (hs : s.failure = some e) :
    Breaks d s e := by
  have hreply {α : Type} (answer : α) : s.reply answer = .error e := by rw [Shelf.reply, hs]
  cases d with
  | done a => exact absurd rfl hasks
  | contents path next => exact .contents (Prod.ext (hreply _) rfl)
  | presence path next => exact .presence (Prod.ext (hreply _) rfl)

/-- A dialogue over a shelf comes to what it comes to with the files at hand, and asks what it asks
there. -/
theorem runOver_shelf {α : Type} (d : Dialogue α) (files : Table Bytes) (asked : List Request) :
    d.runOver (⟨files, none, asked⟩ : Shelf) =
      (.ok (d.run files.get?), ⟨files, none, (d.requests files.get?).reverse ++ asked⟩) := by
  induction d generalizing asked with
  | done a => rfl
  | contents path next ih =>
      rw [Dialogue.requests, List.reverse_cons, List.append_assoc]
      exact ih _ _
  | presence path next ih =>
      rw [Dialogue.requests, List.reverse_cons, List.append_assoc]
      exact ih _ _

/-! ## Compiles -/

/-- What a compile comes to over a bridge that holds. -/
def Compiled.bridged (root : String) (c : Compiled) : BridgedCompile :=
  match c.outcome with
  | .ok output => ⟨.ok output, c.reported⟩
  | .error ds => ⟨.error (.compilationFailed root ds), c.reported⟩

@[simp] theorem Compiled.reported_bridged (root : String) (c : Compiled) :
    (c.bridged root).reported = c.reported := by
  rw [bridged]
  split <;> rfl

theorem Compiled.bridged_ne_bridge (root : String) (c : Compiled) (e : BridgeError) :
    (c.bridged root).result ≠ .error (.bridge e) := by
  rw [bridged]
  split
  · exact fun h ↦ nomatch h
  · exact fun h ↦ nomatch h

theorem compileOver_of_runOver {β : Type} [Source β] {options : CompileOptions} {depth : Nat}
    {root : String} {b b' : β} {compiled : Compiled}
    (h : (compile options depth root).runOver b = (.ok (.ok compiled), b')) :
    compileOver options depth root b = (.ok (compiled.bridged root), b') := by
  rw [compileOver, h, Compiled.bridged]
  dsimp only
  cases compiled.outcome with
  | ok output => rfl
  | error ds => rfl

/-- A compile has an output over a source if the compile that runs over it has one. -/
theorem runOver_of_compileOver_eq_ok {β : Type} [Source β] {options : CompileOptions}
    {depth : Nat} {root : String} {b b' : β} {output : CompileOutput} {reported : List Diagnostic}
    (h : compileOver options depth root b = (.ok ⟨.ok output, reported⟩, b')) :
    (compile options depth root).runOver b = (.ok (.ok ⟨.ok output, reported⟩), b') := by
  rw [compileOver] at h
  rcases hrun : (compile options depth root).runOver b with ⟨e | halt | compiled, b₁⟩
  · rw [hrun] at h
    cases h
  · rw [hrun] at h
    cases h
  · rw [hrun] at h
    obtain ⟨outcome, shown⟩ := compiled
    cases outcome with
    | ok output' => cases h; rfl
    | error ds => cases h

/-- A compile in which a question fails comes to that failure and shows nothing. -/
theorem compileOver_of_breaks {β : Type} [Source β] {options : CompileOptions} {depth : Nat}
    {root : String} {b : β} {e : BridgeError} (h : Breaks (compile options depth root) b e) :
    (compileOver options depth root b).1 = .ok ⟨.error (.bridge e), []⟩ := by
  have hrun := runOver_eq_error_iff.mpr h
  rw [compileOver]
  rcases hover : (compile options depth root).runOver b with ⟨e' | r, b'⟩
  · rw [hover] at hrun
    cases hrun
    rfl
  · rw [hover] at hrun
    cases hrun

theorem Honest.compileOver {β : Type} [Source β] {files : String → Option Bytes} {good : β → Prop}
    {options : CompileOptions} {depth : Nat} {root : String} {b : β} {compiled : Compiled}
    (hhonest : Honest files good) (hb : good b)
    (hholds : ∀ e, ¬ Breaks (compile options depth root) b e)
    (hrun : (compile options depth root).run files = .ok compiled) :
    (Compile.compileOver options depth root b).1 = .ok (compiled.bridged root) := by
  have hover := hhonest.runOver hb hholds
  rw [hrun] at hover
  rw [compileOver_of_runOver (Prod.ext hover rfl)]

theorem compileOver_shelf {files : Table Bytes} {options : CompileOptions} {depth : Nat}
    {root : String} {compiled : Compiled}
    (hrun : (compile options depth root).run files.get? = .ok compiled) :
    compileOver options depth root (⟨files, none, []⟩ : Shelf) =
      (.ok (compiled.bridged root),
        ⟨files, none, ((compile options depth root).requests files.get?).reverse⟩) := by
  refine compileOver_of_runOver ?_
  rw [runOver_shelf, hrun, List.append_nil]

end PipedCompiler.Compile
