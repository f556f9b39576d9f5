import Mathlib.Data.List.Induction
import PipedCompiler.Proofs.Session.Caching

/-!
# Histories of sessions

Sessions share a store, and between them the files that are served may change.  Whatever is kept has
been made in the course of the history, and a session without a store would have made the same at
that moment.  So a session that takes kept output goes back to one moment of the history: one at
which its root had the same contents, although what it imports may have been different.
-/

namespace PipedCompiler.Session

open PipedCompiler.Text PipedCompiler.Bridge PipedCompiler.Parent PipedCompiler.Compile
open PipedCompiler.Worker

/-- What can happen between sessions that share a store. -/
inductive Event where
  /-- A root is compiled with some options. -/
  | compile (options : CompileOptions) (root : String)
  /-- From now on this library is asked. -/
  | serve (l : Library)
  /-- The parent is started anew. -/
  | restart

/-- The context after an event. -/
def Event.happen (limit : Option Duration) (c : Context) : Event → Context
  | .compile options root => ((Compiler.own limit options).compile root c).2
  | .serve l => { c with library := l }
  | .restart => { c with store := c.store.reopened }

/-- The context after some events. -/
def after (limit : Option Duration) (events : List Event) (c : Context) : Context :=
  events.foldl (Event.happen limit) c

section History

variable {limit : Option Duration} {c : Context} {events : List Event}

theorem after_concat (limit : Option Duration) (events : List Event) (e : Event) (c : Context) :
    after limit (events ++ [e]) c = e.happen limit (after limit events c) := by
  rw [after, List.foldl_append]
  rfl

/-- Whether a root is looked up in the course of events and holds this. -/
def Looked (limit : Option Duration) (c : Context) (events : List Event)
    (options : CompileOptions) (root : String) (source : Bytes) : Prop :=
  ∃ earlier later, events = earlier ++ .compile options root :: later ∧
    (after limit earlier c).library.served root = some source

/-- Whether a change of what is served never puts output into the directory of the store. -/
def Undisturbed (limit : Option Duration) (c : Context) (events : List Event) : Prop :=
  ∀ earlier l later, events = earlier ++ .serve l :: later →
    (after limit earlier c).KeepsNoMore { after limit earlier c with library := l }

theorem Undisturbed.left {e : Event} (h : Undisturbed limit c (events ++ [e])) :
    Undisturbed limit c events := by
  rintro earlier l later rfl
  exact h earlier l (later ++ [e]) (by simp)

/-- Whether no two of the byte sequences that are digested in the course of events have one
digest. -/
structure CollisionFree (limit : Option Duration) (c : Context) (events : List Event) :
    Prop where
  sources {o o' : CompileOptions} {root root' : String} {source source' : Bytes} :
    Looked limit c events o root source → Looked limit c events o' root' source' →
      Cache.digestBytes source = Cache.digestBytes source' → source = source'
  materials {o o' : CompileOptions} {root root' : String} {source source' : Bytes} :
    Looked limit c events o root source → Looked limit c events o' root' source' →
      Cache.digestBytes (Cache.material root source o) =
        Cache.digestBytes (Cache.material root' source' o') →
      Cache.material root source o = Cache.material root' source' o'

theorem CollisionFree.digestsApart (h : CollisionFree limit c events) :
    Cache.DigestsApart fun root source o ↦ Looked limit c events o root source :=
  ⟨h.sources, h.materials⟩

/-- Whether a session without a store would have made this output for its root in the course of
events, when the root had the contents that the key belongs to. -/
def MadeUnder (limit : Option Duration) (c : Context) (events : List Event)
    (key text : String) : Prop :=
  ∃ earlier options root later source made, events = earlier ++ .compile options root :: later ∧
    (after limit earlier c).library.served root = some source ∧
    key = Cache.key root source options ∧ made.text = text ∧
    ((Compiler.own limit options).compile root (after limit earlier c).uncached).1 = .ok made

theorem MadeUnder.concat {key text : String} (h : MadeUnder limit c events key text) (e : Event) :
    MadeUnder limit c (events ++ [e]) key text := by
  obtain ⟨earlier, options, root, later, source, made, rfl, hmade⟩ := h
  exact ⟨earlier, options, root, later ++ [e], source, made, by simp, hmade⟩

/-- Whatever is kept has been made, if nothing has been kept at the start. -/
theorem madeUnder_of_keeps (hempty : ∀ key, Cache.IsKey key → ∀ text, ¬ c.Keeps key text)
    (hundisturbed : Undisturbed limit c events) {key text : String} (hkey : Cache.IsKey key)
    (h : (after limit events c).Keeps key text) : MadeUnder limit c events key text := by
  induction events using List.reverseRecOn with
  | nil => exact absurd h (hempty key hkey text)
  | append_singleton events e ih =>
      rw [after_concat] at h
      cases e with
      | serve l =>
          exact (ih hundisturbed.left (hundisturbed events l [] rfl key text hkey h)).concat _
      | restart => exact (ih hundisturbed.left (Cache.Store.Keeps.of_reopened h)).concat _
      | compile options root =>
          rcases keeps_of_compile hkey h with hkeeps | ⟨source, made, hsource, rfl, htext, hmade⟩
          · exact (ih hundisturbed.left hkeeps).concat _
          · exact ⟨events, options, root, [], source, made, rfl, hsource, rfl, htext, hmade⟩

end History

/-! ## Stores in memory -/

/-- Whether output is kept in memory only. -/
def Context.InMemory (c : Context) : Prop :=
  ∃ entries, c.store = .memory entries

/-- Starting a session leaves a store in memory as it is. -/
theorem store_start {c : Context} (h : c.InMemory) (k : Compiler) (root : String) :
    (k.start root c).2.store = c.store := by
  obtain ⟨entries, hstore⟩ := h
  obtain ⟨key, hkey, -⟩ := key?_eq k root c
  have hlooked := hkey c.store
  rw [Compiler.start, hlooked]
  cases key with
  | none => rfl
  | some key =>
      simp only [Context.kept, hstore, Cache.Store.get]
      cases entries.get? key <;> rfl

theorem Context.InMemory.keep {c : Context} (h : c.InMemory) (key output : String) :
    (c.keep key output).InMemory := by
  obtain ⟨entries, h⟩ := h
  exact ⟨entries.insert key output, by rw [Context.keep, h]; rfl⟩

theorem inMemory_compile {c : Context} (h : c.InMemory) (limit : Option Duration)
    (options : CompileOptions) (root : String) :
    ((Compiler.own limit options).compile root c).2.InMemory := by
  have hstart : ((Compiler.own limit options).start root c).2.InMemory := by
    rw [Context.InMemory, store_start h]
    exact h
  rw [Compiler.compile]
  generalize (Compiler.own limit options).start root c = started at hstart ⊢
  rcases started with ⟨output | ⟨root, key⟩, c'⟩
  · exact hstart
  · show ((Compiler.own limit options).finish (.open_ root key) c').2.InMemory
    obtain ⟨l, -, hrun⟩ := run_own limit options root c'
    rw [Compiler.finish, hrun]
    rcases ((Compiler.own limit options).run root c'.uncached).1 with e | ⟨text, requests⟩
    · exact hstart
    · cases key with
      | none => exact hstart
      | some key => exact Context.InMemory.keep (c := { c' with library := l }) hstart key text

theorem inMemory_after {c : Context} (h : c.InMemory) (limit : Option Duration)
    (events : List Event) : (after limit events c).InMemory := by
  induction events using List.reverseRecOn with
  | nil => exact h
  | append_singleton events e ih =>
      rw [after_concat]
      cases e with
      | compile options root => exact inMemory_compile ih limit options root
      | serve l => exact ih
      | restart =>
          obtain ⟨entries, hstore⟩ := ih
          exact ⟨.empty, by rw [Event.happen, hstore]; rfl⟩

/-- No change of files puts output into memory. -/
theorem undisturbed_of_inMemory {c : Context} (h : c.InMemory) (limit : Option Duration)
    (events : List Event) : Undisturbed limit c events := by
  intro earlier l later _ key text _ htext
  obtain ⟨entries, hstore⟩ := inMemory_after h limit earlier
  rw [Context.Keeps, hstore] at htext ⊢
  exact htext

/-! ## What a session gives -/

section Session

variable {limit : Option Duration} {c : Context} {events : List Event}

/-- A session that may use a store comes to what it comes to without one, or takes the output that
it has made without one at an earlier time of the same root with the same contents.  As long as all
that the compile has asked about then is the same now, that is also what it would make now. -/
theorem compile_current_or_kept {options : CompileOptions} {root : String}
    (hempty : ∀ key, Cache.IsKey key → ∀ text, ¬ c.Keeps key text)
    (hundisturbed : Undisturbed limit c events)
    (hcollisions : CollisionFree limit c (events ++ [.compile options root])) :
    ((Compiler.own limit options).compile root (after limit events c)).1 =
        ((Compiler.own limit options).compile root (after limit events c).uncached).1 ∨
      ∃ earlier later made, events = earlier ++ .compile options root :: later ∧
        ((Compiler.own limit options).compile root (after limit earlier c).uncached).1 = .ok made ∧
        ((Compiler.own limit options).compile root (after limit events c)).1 =
          .ok ⟨root, made.text, 0, true⟩ ∧
        (after limit events c).library.served root =
          (after limit earlier c).library.served root ∧
        ((∀ r ∈ (compile options importLimit root).requests (after limit earlier c).library.served,
            (after limit events c).library.served r.path =
              (after limit earlier c).library.served r.path) →
          ((Compiler.own limit options).compile root (after limit events c).uncached).1 =
            .ok made) := by
  rcases result_compile limit options root (after limit events c) with
    hcurrent | ⟨source, text, hsource, hkeeps, hresult⟩
  · exact .inl hcurrent
  · obtain ⟨earlier, options', root', later, source', made, hevents, hsource', hkey, rfl, hmade⟩ :=
      madeUnder_of_keeps hempty hundisturbed ⟨root, source, options, rfl⟩ hkeeps
    have hnow : Looked limit c (events ++ [.compile options root]) options root source :=
      ⟨events, [], rfl, hsource⟩
    have hthen : Looked limit c (events ++ [.compile options root]) options' root' source' :=
      ⟨earlier, later ++ [.compile options root], by simp [hevents], hsource'⟩
    obtain ⟨rfl, rfl, rfl⟩ := hcollisions.digestsApart.key_inj hnow hthen hkey
    refine .inr ⟨earlier, later, made, hevents, hmade, hresult, hsource.trans hsource'.symm, ?_⟩
    intro hagree
    rw [result_uncached_congr hagree, hmade]

end Session

/-- A file and another one that it imports, beside a directory for a store. -/
def importing (imported : String) : Library :=
  ⟨.shared, ⟨⟨.ofList [("/cache", .directory)], ""⟩,
    .ofList [("a.ts", bytesOf "import b from './b'"), ("b.ts", bytesOf imported)], 0⟩⟩

/-- Nothing has happened yet. -/
def atFirst (s : Cache.Store) : Context :=
  ⟨importing "let x = 1", s⟩

/-- A root is compiled, and then the file that it imports changes. -/
def changed : List Event :=
  [.compile { omitsDefaultLibrary := true } "a.ts", .serve (importing "let x = 2")]

theorem read?_importing (imported path : String) :
    (importing imported).world.tree.read? path = none :=
  FileTree.read?_eq_none (fun entry hentry ↦ by rw [List.mem_singleton.mp hentry]) path

theorem undisturbed_changed (s : Cache.Store) : Undisturbed none (atFirst s) changed := by
  intro earlier l later hevents key text _ htext
  obtain rfl : l = importing "let x = 2" := by
    rcases earlier with _ | ⟨first, _ | ⟨second, earlier⟩⟩
    · simp [changed] at hevents
    · simp only [changed, List.cons_append, List.nil_append, List.cons.injEq,
        Event.serve.injEq] at hevents
      exact hevents.2.1.symm
    · simp [changed] at hevents
  exact Cache.Store.Keeps.of_no_files (read?_importing "let x = 2") htext _

/-- The root is looked up twice and holds the same both times. -/
theorem eq_of_looked_changed {s : Cache.Store} {o : CompileOptions} {root : String}
    {source : Bytes}
    (h : Looked none (atFirst s) (changed ++ [.compile { omitsDefaultLibrary := true } "a.ts"])
      o root source) :
    o = { omitsDefaultLibrary := true } ∧ root = "a.ts" ∧
      source = bytesOf "import b from './b'" := by
  obtain ⟨earlier, later, hevents, hsource⟩ := h
  rcases earlier with _ | ⟨first, _ | ⟨second, _ | ⟨third, earlier⟩⟩⟩
  · obtain ⟨hfirst, -⟩ := List.cons.inj hevents
    obtain ⟨rfl, rfl⟩ := Event.compile.inj hfirst
    exact ⟨rfl, rfl, (Option.some.inj hsource).symm⟩
  · simp [changed] at hevents
  · simp only [changed, List.cons_append, List.nil_append, List.cons.injEq, Event.compile.injEq]
      at hevents
    obtain ⟨rfl, rfl, ⟨rfl, rfl⟩, -⟩ := hevents
    exact ⟨rfl, rfl, (Option.some.inj hsource).symm⟩
  · simp [changed] at hevents

theorem collisionFree_changed (s : Cache.Store) : CollisionFree none (atFirst s)
    (changed ++ [.compile { omitsDefaultLibrary := true } "a.ts"]) where
  sources h h' _ := (eq_of_looked_changed h).2.2.trans (eq_of_looked_changed h').2.2.symm
  materials h h' _ := by
    obtain ⟨rfl, rfl, rfl⟩ := eq_of_looked_changed h
    obtain ⟨rfl, rfl, rfl⟩ := eq_of_looked_changed h'
    rfl

/-- The text of kept output, and the one that is made without a store. -/
theorem texts_changed : ∀ s ∈ [Cache.Store.memory .empty, .disk "/cache" .empty],
    ((Compiler.own none { omitsDefaultLibrary := true }).compile "a.ts"
        (after none changed (atFirst s))).1.toOption.map SessionOutput.text =
      some "var x = 1;\nvar b = require(\"./b\");\n" ∧
    ((Compiler.own none { omitsDefaultLibrary := true }).compile "a.ts"
        (after none changed (atFirst s)).uncached).1.toOption.map SessionOutput.text =
      some "var x = 2;\nvar b = require(\"./b\");\n" := by
  decide +kernel

theorem compile_current_or_kept_changed :
    (∀ key, Cache.IsKey key → ∀ text, ¬ (atFirst (.disk "/cache" .empty)).Keeps key text) ∧
      Undisturbed none (atFirst (.disk "/cache" .empty)) changed ∧
      CollisionFree none (atFirst (.disk "/cache" .empty))
        (changed ++ [.compile { omitsDefaultLibrary := true } "a.ts"]) ∧
      ∃ made,
        ((Compiler.own none { omitsDefaultLibrary := true }).compile "a.ts"
          (atFirst (.disk "/cache" .empty)).uncached).1 = .ok made ∧
        ((Compiler.own none { omitsDefaultLibrary := true }).compile "a.ts"
          (after none changed (atFirst (.disk "/cache" .empty)))).1 =
            .ok ⟨"a.ts", made.text, 0, true⟩ := by
  have hempty : ∀ key, Cache.IsKey key → ∀ text,
      ¬ (atFirst (.disk "/cache" .empty)).Keeps key text := by
    rintro key - text (hfront | hread)
    · cases hfront
    · rw [Cache.Store.readText?, show (atFirst _).tree.read? _ = none from
        read?_importing "let x = 1" _] at hread
      cases hread
  refine ⟨hempty, undisturbed_changed _, collisionFree_changed _, ?_⟩
  rcases compile_current_or_kept hempty (undisturbed_changed _) (collisionFree_changed _) with
    hcurrent | ⟨earlier, later, made, hevents, hmade, hresult, -⟩
  · obtain ⟨hkept, hmade⟩ := texts_changed (.disk "/cache" .empty) (by simp)
    rw [hcurrent, hmade] at hkept
    exact absurd hkept (by decide)
  · rcases earlier with _ | ⟨first, _ | ⟨second, earlier⟩⟩
    · exact ⟨made, hmade, hresult⟩
    · simp [changed] at hevents
    · simp [changed] at hevents

/-- Kept output stays the same when a file that the root imports has changed, although a session
without a store makes something else of it. -/
theorem compile_out_of_date :
    (∀ key text, ¬ (atFirst (.memory .empty)).Keeps key text) ∧
      Undisturbed none (atFirst (.memory .empty)) changed ∧
      CollisionFree none (atFirst (.memory .empty))
        (changed ++ [.compile { omitsDefaultLibrary := true } "a.ts"]) ∧
      ((Compiler.own none { omitsDefaultLibrary := true }).compile "a.ts"
          (after none changed (atFirst (.memory .empty)))).1.toOption.map SessionOutput.text =
        some "var x = 1;\nvar b = require(\"./b\");\n" ∧
      ((Compiler.own none { omitsDefaultLibrary := true }).compile "a.ts"
          (after none changed (atFirst (.memory .empty))).uncached).1.toOption.map
            SessionOutput.text =
        some "var x = 2;\nvar b = require(\"./b\");\n" :=
  ⟨fun _ _ htext ↦ (by cases htext), undisturbed_of_inMemory ⟨.empty, rfl⟩ none changed,
    collisionFree_changed _, texts_changed (.memory .empty) (by simp)⟩

end PipedCompiler.Session
