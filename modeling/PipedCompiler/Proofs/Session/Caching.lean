import PipedCompiler.Proofs.Cache.Key
import PipedCompiler.Proofs.Worker.Compiler
import PipedCompiler.Session.Basic

/-!
# Sessions that keep their output

Output is kept under a digest of the root, of what the root holds and of the options, but not of
what the root imports.  So a session that takes output from the store may give what is out of date,
but it can do nothing worse: what it takes has been kept under the key of its root, and a session
keeps nothing but what it would also have made without a store.  That in turn is decided by what is
served where the compile of the root asks.
-/

namespace PipedCompiler.Session

open PipedCompiler.Text PipedCompiler.Bridge PipedCompiler.Parent PipedCompiler.Compile
open PipedCompiler.Worker

/-- A compiler whose processes are those of this program. -/
def Compiler.own (limit : Option Duration) (options : CompileOptions) : Compiler :=
  ⟨Invocation.own.program, options, limit⟩

namespace Context

/-- The context with a store that keeps nothing. -/
def uncached (c : Context) : Context :=
  { c with store := .nothing }

/-- Whether output is kept under a key. -/
def Keeps (c : Context) (key text : String) : Prop :=
  c.store.Keeps c.tree key text

/-- Whether nothing is kept that has not been kept before. -/
def KeepsNoMore (c c' : Context) : Prop :=
  ∀ key text, Cache.IsKey key → c'.Keeps key text → c.Keeps key text

theorem KeepsNoMore.trans {c c' c'' : Context} (h : KeepsNoMore c c') (h' : KeepsNoMore c' c'') :
    KeepsNoMore c c'' :=
  fun key text hkey htext ↦ h key text hkey (h' key text hkey htext)

theorem keepsNoMore_of_lasts {c : Context} {l : Library} (h : c.library.Lasts l) :
    KeepsNoMore c { c with library := l } := by
  intro key text _ htext
  have htree : ({ c with library := l } : Context).tree = c.tree := h.tree
  rwa [Keeps, htree] at htext

theorem keepsNoMore_kept (c : Context) (key : String) : KeepsNoMore c (c.kept key).2 :=
  fun _ _ _ h ↦ Cache.Store.Keeps.of_get h

end Context

section Session

variable {limit : Option Duration} {options : CompileOptions} {root : String}

/-! ## Processes -/

/-- What a process comes to does not depend on the store, and nothing that can be told is changed
by it. -/
theorem run_own (limit : Option Duration) (options : CompileOptions) (root : String)
    (c : Context) : ∃ l, c.library.Lasts l ∧
      (Compiler.own limit options).run root c =
        (((Compiler.own limit options).run root c.uncached).1, { c with library := l }) := by
  have hsame := sameRun_own ⟨options, limit, root⟩ (l := c.library) fun _ _ ↦ rfl
  rw [Compiler.run, Compiler.run]
  rcases hrun : (Compiler.own limit options).program ⟨options, limit, root⟩
      (Server.start c.library) with fault | run
  · refine ⟨c.library, .refl _, ?_⟩
    simp only [Context.uncached, Compiler.own] at hrun ⊢
    rw [hrun]
  · refine ⟨run.server.resolver, hsame.lasts hrun, ?_⟩
    simp only [Context.uncached, Compiler.own] at hrun ⊢
    rw [hrun]

/-- What a process comes to is decided by what is served where the compile of its root asks. -/
theorem run_own_congr {c c' : Context}
    (hagree : ∀ r ∈ (compile options importLimit root).requests c.library.served,
      c'.library.served r.path = c.library.served r.path) :
    ((Compiler.own limit options).run root c').1 = ((Compiler.own limit options).run root c).1 := by
  have hsame := sameRun_own ⟨options, limit, root⟩ hagree
  simp only [Compiler.run, Compiler.own]
  generalize Invocation.own.program ⟨options, limit, root⟩ (Server.start c.library) = x at hsame ⊢
  generalize Invocation.own.program ⟨options, limit, root⟩ (Server.start c'.library) = y at hsame ⊢
  cases hsame with
  | failed fault => rfl
  | ran _ _ => rfl

/-! ## One session -/

/-- The output that a session makes of what its process comes to. -/
def madeOutput (root : String) (made : String × Nat) : SessionOutput :=
  ⟨root, made.1, made.2, false⟩

/-- The key of a session does not depend on the store. -/
theorem key?_eq (k : Compiler) (root : String) (c : Context) :
    ∃ key, (∀ store, k.key? root { c with store } =
        (key, { library := (c.library.contents root).2, store })) ∧
      (key = none ∨ ∃ source, c.library.served root = some source ∧
        key = some (Cache.key root source k.options)) := by
  rcases hcontents : c.library.contents root with ⟨e | _ | source, l⟩
  · exact ⟨none, fun store ↦ by rw [Compiler.key?, hcontents], .inl rfl⟩
  · exact ⟨none, fun store ↦ by rw [Compiler.key?, hcontents], .inl rfl⟩
  · exact ⟨some (Cache.key root source k.options), fun store ↦ by rw [Compiler.key?, hcontents],
      .inr ⟨source, Library.served_of_contents hcontents, rfl⟩⟩

theorem result_finish (k : Compiler) (key : Option String) (c : Context) :
    (k.finish (.open_ root key) c).1 = (k.run root c).1.map (madeOutput root) := by
  rw [Compiler.finish]
  rcases k.run root c with ⟨e | ⟨text, requests⟩, c'⟩ <;> rfl

/-- A session that has a process make its output keeps at most this output. -/
theorem keeps_of_finish {key : Option String} (hkey : ∀ name ∈ key, Cache.IsKey name)
    {c : Context} {name text : String} (hname : Cache.IsKey name)
    (h : ((Compiler.own limit options).finish (.open_ root key) c).2.Keeps name text) :
    c.Keeps name text ∨ key = some name ∧ ∃ requests,
      ((Compiler.own limit options).run root c).1 = .ok (text, requests) := by
  obtain ⟨l, hlasts, hrun⟩ := run_own limit options root c
  rw [Compiler.finish, hrun] at h
  rcases hresult : ((Compiler.own limit options).run root c.uncached).1 with e | ⟨made, requests⟩
  · rw [hresult] at h
    exact .inl (Context.keepsNoMore_of_lasts hlasts name text hname h)
  · rw [hresult] at h
    cases key with
    | none => exact .inl (Context.keepsNoMore_of_lasts hlasts name text hname h)
    | some key =>
        have hput := Cache.Store.Keeps.of_put (hkey key rfl).isName hname.isName h
        rcases hput with ⟨rfl, rfl⟩ | hkeeps
        · exact .inr ⟨rfl, requests, by rw [hrun, hresult]⟩
        · exact .inl (Context.keepsNoMore_of_lasts hlasts name text hname hkeeps)

/-- A session without a store has a process make its output. -/
theorem result_uncached (k : Compiler) (root : String) (c : Context) :
    (k.compile root c.uncached).1 =
      (k.run root ⟨(c.library.contents root).2, .nothing⟩).1.map (madeOutput root) := by
  obtain ⟨key, hkey, -⟩ := key?_eq k root c
  have hstart : k.start root c.uncached =
      (.open_ root key, ⟨(c.library.contents root).2, .nothing⟩) := by
    rw [Compiler.start, Context.uncached, hkey]
    cases key <;> rfl
  rw [Compiler.compile, hstart]
  exact result_finish k key _

/-- How a session starts: with output that is kept under the key of its root, or with nothing but at
most that key. -/
theorem start_cases (k : Compiler) (root : String) (c : Context) :
    ∃ c', c'.library = (c.library.contents root).2 ∧ c.KeepsNoMore c' ∧
      ((∃ source text, c.library.served root = some source ∧
          c.Keeps (Cache.key root source k.options) text ∧
          k.start root c = (.kept ⟨root, text, 0, true⟩, c')) ∨
        ∃ key, k.start root c = (.open_ root key, c') ∧
          ∀ name ∈ key, ∃ source, c.library.served root = some source ∧
            name = Cache.key root source k.options) := by
  obtain ⟨key, hkey, hsource⟩ := key?_eq k root c
  let looked : Context := ⟨(c.library.contents root).2, c.store⟩
  have hlooked : k.key? root c = (key, looked) := hkey c.store
  have hlasts := c.library.lasts_contents root
  have hmore : c.KeepsNoMore looked := Context.keepsNoMore_of_lasts hlasts
  rcases hsource with rfl | ⟨source, hsource, rfl⟩
  · refine ⟨looked, rfl, hmore, .inr ⟨none, ?_, fun _ h ↦ by cases h⟩⟩
    rw [Compiler.start, hlooked]
  · refine ⟨(looked.kept (Cache.key root source k.options)).2, rfl,
      hmore.trans (looked.keepsNoMore_kept _), ?_⟩
    rcases hkept : looked.kept (Cache.key root source k.options) with ⟨_ | text, c'⟩
    · refine .inr ⟨some (Cache.key root source k.options), ?_, fun name hname ↦ ?_⟩
      · rw [Compiler.start, hlooked]
        dsimp only
        rw [hkept]
      · exact ⟨source, hsource, (Option.some.inj hname).symm⟩
    · have hkeeps : looked.Keeps (Cache.key root source k.options) text :=
        Cache.Store.keeps_of_get (congrArg Prod.fst hkept)
      refine .inl ⟨source, text, hsource, hmore _ _ ⟨_, _, _, rfl⟩ hkeeps, ?_⟩
      rw [Compiler.start, hlooked]
      dsimp only
      rw [hkept]

/-- A session takes output that is kept under the key of its root, or comes to what it comes to
without a store. -/
theorem result_compile (limit : Option Duration) (options : CompileOptions) (root : String)
    (c : Context) :
    ((Compiler.own limit options).compile root c).1 =
        ((Compiler.own limit options).compile root c.uncached).1 ∨
      ∃ source text, c.library.served root = some source ∧
        c.Keeps (Cache.key root source options) text ∧
        ((Compiler.own limit options).compile root c).1 = .ok ⟨root, text, 0, true⟩ := by
  obtain ⟨c', hlibrary, -, ⟨source, text, hsource, hkeeps, hstart⟩ | ⟨key, hstart, -⟩⟩ :=
    start_cases (Compiler.own limit options) root c
  · exact .inr ⟨source, text, hsource, hkeeps, by rw [Compiler.compile, hstart]; rfl⟩
  · obtain ⟨l, -, hrun⟩ := run_own limit options root c'
    refine .inl ?_
    rw [result_uncached, ← hlibrary, Compiler.compile, hstart]
    dsimp only
    rw [result_finish, hrun]
    rfl

/-- A session keeps at most the output of its root that is made without a store. -/
theorem keeps_of_compile {c : Context} {name text : String} (hname : Cache.IsKey name)
    (h : ((Compiler.own limit options).compile root c).2.Keeps name text) :
    c.Keeps name text ∨ ∃ source made, c.library.served root = some source ∧
      name = Cache.key root source options ∧ made.text = text ∧
      ((Compiler.own limit options).compile root c.uncached).1 = .ok made := by
  obtain ⟨c', hlibrary, hmore, ⟨source, output, -, -, hstart⟩ | ⟨key, hstart, hkey⟩⟩ :=
    start_cases (Compiler.own limit options) root c
  · rw [Compiler.compile, hstart] at h
    exact .inl (hmore name text hname h)
  · rw [Compiler.compile, hstart] at h
    have hnames : ∀ name ∈ key, Cache.IsKey name := by
      intro name hmem
      obtain ⟨source, -, heq⟩ := hkey name hmem
      exact ⟨root, source, options, heq⟩
    rcases keeps_of_finish hnames hname h with hkeeps | ⟨rfl, requests, hresult⟩
    · exact .inl (hmore name text hname hkeeps)
    · obtain ⟨source, hsource, heq⟩ := hkey name rfl
      obtain ⟨l, -, hrun⟩ := run_own limit options root c'
      refine .inr ⟨source, madeOutput root (text, requests), hsource, heq, rfl, ?_⟩
      rw [hrun] at hresult
      rw [result_uncached, ← hlibrary]
      exact congrArg (Except.map (madeOutput root)) hresult

/-- What a session without a store comes to is decided by what is served where the compile of its
root asks. -/
theorem result_uncached_congr {c c' : Context}
    (hagree : ∀ r ∈ (compile options importLimit root).requests c.library.served,
      c'.library.served r.path = c.library.served r.path) :
    ((Compiler.own limit options).compile root c'.uncached).1 =
      ((Compiler.own limit options).compile root c.uncached).1 := by
  have hlasts := c.library.lasts_contents root
  have hlasts' := c'.library.lasts_contents root
  rw [result_uncached, result_uncached]
  refine congrArg (Except.map (madeOutput root)) (run_own_congr fun r hr ↦ ?_)
  rw [hlasts.served] at hr ⊢
  rw [hlasts'.served]
  exact hagree r hr

end Session

end PipedCompiler.Session
