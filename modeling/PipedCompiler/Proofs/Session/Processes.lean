import PipedCompiler.Proofs.Parent.Delivery
import PipedCompiler.Proofs.Session.Caching

/-!
# Sessions with any process

Here a process may be any program: it may write any bytes, say anything and end in any way.  A
session has two views of it, what was served and how it ended, and takes output only if both are in
order.  Whatever else has happened leaves the store as it was; and once output is in a store in
memory, it stays there as it is, so that later sessions of the same root have it without a process.
-/

namespace PipedCompiler.Session

open PipedCompiler.Text PipedCompiler.Bridge PipedCompiler.Parent PipedCompiler.Compile
open PipedCompiler.Worker

/-! ## What a process leaves behind -/

/-- How a process with this exit code ends.  One without has been killed by a signal. -/
def endingWith : Option Nat → Worker.Ending
  | some code => .exited code
  | none => .killed

/-- What a process leaves behind that has written and said this, whatever it has been told. -/
def leaves (p : Server Library) (written errors : Bytes) (elapsed : Nat) (code : Option Nat) :
    Run Library :=
  ⟨(p.take written).2.takeEnd.2, errors, elapsed, endingWith code⟩

theorem outputOf_eq_ok_iff {served : Except ServeFault Served} {text : String} {requests : Nat} :
    outputOf served = .ok (text, requests) ↔
      ∃ body, served = .ok ⟨some body, requests⟩ ∧ text = lossyString body := by
  constructor
  · intro h
    rcases served with fault | ⟨_ | body, answered⟩
    · cases h
    · cases h
    · obtain ⟨rfl, rfl⟩ := Prod.mk.inj (Except.ok.inj h)
      exact ⟨body, rfl, rfl⟩
  · rintro ⟨body, rfl, rfl⟩
    rfl

/-- Only a process that has ended well and has been served output makes output. -/
theorem conclude_leaves_eq_ok_iff {root text : String} {l : Library} {written errors : Bytes}
    {elapsed requests : Nat} {code : Option Nat} :
    conclude root (leaves (Server.start l) written errors elapsed code) = .ok (text, requests) ↔
      code = some 0 ∧ ∃ body, Delivers written requests body ∧ text = lossyString body := by
  have hserved (body : Bytes) :
      ((Server.start l).take written).2.takeEnd.2.result = .ok ⟨some body, requests⟩ ↔
        Delivers written requests body :=
    serve_eq_ok_some_iff l
  cases code with
  | none =>
      constructor
      · intro h
        cases h
      · rintro ⟨hcode, -⟩
        cases hcode
  | some code =>
      simp only [conclude, leaves, endingWith, outcomeOf]
      split
      · next hcode =>
        obtain rfl : code = 0 := hcode
        rw [outputOf_eq_ok_iff]
        simp only [hserved, true_and]
      · next hcode =>
        have hne : some code ≠ some 0 := fun h ↦ hcode (Option.some.inj h)
        refine ⟨fun h ↦ ?_, fun h ↦ absurd h.1 hne⟩
        split at h
        · cases h
        · split at h <;> cases h

/-! ## Output that stays

What is once in a store in memory is found there by every session that could replace it. -/

/-- Whether a store in memory has this output under a key. -/
def Context.Has (c : Context) (key text : String) : Prop :=
  ∃ entries, c.store = .memory entries ∧ entries.get? key = some text

section Has

variable {c : Context} {key text : String}

/-- The key of a session, as long as its root can be read. -/
theorem key?_of_contents {root : String} {source : Bytes} (k : Compiler)
    (h : (c.library.contents root).1 = .ok (some source)) :
    k.key? root c = (some (Cache.key root source k.options),
      { c with library := (c.library.contents root).2 }) := by
  rw [Compiler.key?]
  rcases hcontents : c.library.contents root with ⟨found, l⟩
  rw [hcontents] at h
  rw [show found = _ from h]

theorem key?_snd (k : Compiler) (root : String) (c : Context) :
    (k.key? root c).2 = { c with library := (c.library.contents root).2 } :=
  rfl

/-- Output that is there is found. -/
theorem Context.Has.start_eq {root : String} {source : Bytes} {k : Compiler}
    (hsource : (c.library.contents root).1 = .ok (some source))
    (h : c.Has (Cache.key root source k.options) text) :
    k.start root c =
      (.kept ⟨root, text, 0, true⟩, { c with library := (c.library.contents root).2 }) := by
  obtain ⟨entries, hstore, hget⟩ := h
  rw [Compiler.start, key?_of_contents k hsource]
  simp only [Context.kept, hstore, Cache.Store.get, hget]

/-- No session is started that could replace it. -/
theorem Context.Has.start (h : c.Has key text) (k : Compiler) (root : String) :
    (k.start root c).2.Has key text ∧
      ∀ root', (k.start root c).1 ≠ .open_ root' (some key) := by
  obtain ⟨entries, hstore, hget⟩ := h
  rw [Compiler.start]
  have hcontext := key?_snd k root c
  rcases hkey : k.key? root c with ⟨_ | name, c'⟩
  · rw [hkey] at hcontext
    obtain rfl := hcontext
    exact ⟨⟨entries, hstore, hget⟩, fun root' h ↦ by cases h⟩
  · rw [hkey] at hcontext
    obtain rfl := hcontext
    simp only [Context.kept, hstore, Cache.Store.get]
    cases hname : entries.get? name with
    | some output => exact ⟨⟨entries, rfl, hget⟩, fun root' h ↦ by cases h⟩
    | none =>
        refine ⟨⟨entries, rfl, hget⟩, fun root' h ↦ ?_⟩
        cases h
        rw [hget] at hname
        cases hname

/-- A process does not touch the store. -/
theorem store_run (k : Compiler) (root : String) (c : Context) :
    (k.run root c).2.store = c.store := by
  rw [Compiler.run]
  split <;> rfl

theorem Context.Has.finish (h : c.Has key text) (k : Compiler) {s : Compiler.Started}
    (hs : ∀ root, s ≠ .open_ root (some key)) : (k.finish s c).2.Has key text := by
  obtain ⟨entries, hstore, hget⟩ := h
  cases s with
  | kept output => exact ⟨entries, hstore, hget⟩
  | open_ root name =>
      have hrun := (store_run k root c).trans hstore
      rw [Compiler.finish]
      rcases hresult : k.run root c with ⟨e | ⟨made, requests⟩, c'⟩
      · rw [hresult] at hrun
        exact ⟨entries, hrun, hget⟩
      · rw [hresult] at hrun
        cases name with
        | none => exact ⟨entries, hrun, hget⟩
        | some name =>
            have hname : name ≠ key := by
              rintro rfl
              exact hs root rfl
            refine ⟨entries.insert name made, ?_, ?_⟩
            · exact congrArg (fun s ↦ (s.put name made c'.tree).1) hrun
            · rw [Table.get?_insert, if_neg hname, hget]

theorem Context.Has.compile (h : c.Has key text) (k : Compiler) (root : String) :
    (k.compile root c).2.Has key text := by
  obtain ⟨hstart, hopen⟩ := h.start k root
  exact hstart.finish k hopen

theorem Context.Has.startAll (h : c.Has key text) (k : Compiler) (roots : List String) :
    (k.startAll roots c).2.Has key text ∧
      ∀ s ∈ (k.startAll roots c).1, ∀ root, s ≠ .open_ root (some key) := by
  induction roots generalizing c with
  | nil => exact ⟨h, fun s hs ↦ absurd hs List.not_mem_nil⟩
  | cons root roots ih =>
      obtain ⟨hstart, hopen⟩ := h.start k root
      obtain ⟨hrest, hothers⟩ := ih hstart
      refine ⟨hrest, fun s hs ↦ ?_⟩
      rcases List.mem_cons.mp hs with rfl | hmem
      · exact hopen
      · exact hothers s hmem

theorem Context.Has.finishAll (h : c.Has key text) (k : Compiler)
    {running : List Compiler.Started} (hopen : ∀ s ∈ running, ∀ root, s ≠ .open_ root (some key))
    (waiting : List String) : (k.finishAll running waiting c).2.Has key text := by
  induction running, waiting, c using Compiler.finishAll.induct k with
  | case1 waiting c =>
      rw [Compiler.finishAll]
      exact h
  | case2 s running c result c₁ hfinish others c₂ hrest ih =>
      have hfinished := h.finish k (hopen s List.mem_cons_self)
      rw [hfinish] at hfinished
      have hlast := ih hfinished fun s' hs' ↦ hopen s' (List.mem_cons_of_mem s hs')
      rw [Compiler.finishAll]
      simp only [hfinish, hrest] at hlast ⊢
      exact hlast
  | case3 s running root waiting c result c₁ hfinish next c₂ hstart others c₃ hrest ih =>
      have hfinished := h.finish k (hopen s List.mem_cons_self)
      rw [hfinish] at hfinished
      obtain ⟨hstarted, hnext⟩ := hfinished.start k root
      rw [hstart] at hstarted hnext
      have hlast := ih hstarted fun s' hs' ↦ by
        rcases List.mem_append.mp hs' with hmem | hmem
        · exact hopen s' (List.mem_cons_of_mem s hmem)
        · exact List.mem_singleton.mp hmem ▸ hnext
      rw [Compiler.finishAll]
      simp only [hfinish, hstart, hrest] at hlast ⊢
      exact hlast

theorem Context.Has.compileAll (h : c.Has key text) (k : Compiler) (roots : List String)
    (limit : Nat) : (k.compileAll roots limit c).2.Has key text := by
  obtain ⟨hstarted, hopen⟩ := h.startAll k (roots.take (max limit 1))
  exact hstarted.finishAll k hopen (roots.drop (max limit 1))

end Has

/-- Whether a context can come about after another one: by sessions with any compilers, one after
the other or many at once, while the sources that are asked may be exchanged. -/
inductive Later : Context → Context → Prop where
  | refl (c : Context) : Later c c
  | compile {c c' : Context} (k : Compiler) (root : String) :
      Later c c' → Later c (k.compile root c').2
  | compileAll {c c' : Context} (k : Compiler) (roots : List String) (limit : Nat) :
      Later c c' → Later c (k.compileAll roots limit c').2
  | serve {c c' : Context} (l : Library) : Later c c' → Later c { c' with library := l }

theorem Context.Has.later {c c' : Context} {key text : String} (h : c.Has key text)
    (hlater : Later c c') : c'.Has key text := by
  induction hlater with
  | refl => exact h
  | compile k root _ ih => exact ih.compile k root
  | compileAll k roots limit _ ih => exact ih.compileAll k roots limit
  | serve l _ ih => exact ih

/-! ## One session -/

section Session

variable {k : Compiler} {root : String} {c : Context} {entries : Table String}

/-- A session whose key is not there has a process make its output. -/
theorem start_of_absent (hstore : c.store = .memory entries)
    (habsent : ∀ key ∈ (k.key? root c).1, entries.get? key = none) :
    k.start root c = (.open_ root (k.key? root c).1,
      { c with library := (c.library.contents root).2 }) := by
  have hcontext := key?_snd k root c
  rw [Compiler.start]
  rcases hkey : k.key? root c with ⟨_ | key, c'⟩
  · rw [hkey] at hcontext
    exact congrArg _ hcontext
  · rw [hkey] at hcontext habsent
    obtain rfl := hcontext
    simp only [Context.kept, hstore, Cache.Store.get, habsent key rfl]

/-- The context after a session in which a process has come to this, where the library is `l` by
then. -/
def contextAfter (c : Context) (l : Library) (key : Option String) :
    Except SessionError (String × Nat) → Context
  | .error _ => { c with library := l }
  | .ok (text, _) =>
    match key with
    | some key => { c with library := l }.keep key text
    | none => { c with library := l }

/-- A session whose key is not there comes to what its process comes to. -/
theorem compile_of_absent {r : Run Library} (hlimit : k.limit = none)
    (hstore : c.store = .memory entries)
    (habsent : ∀ key ∈ (k.key? root c).1, entries.get? key = none)
    (hrun : k.program ⟨k.options, none, root⟩ (Server.start (c.library.contents root).2) =
      .ok r) :
    k.compile root c = ((conclude root r).map (madeOutput root),
      contextAfter c r.server.resolver (k.key? root c).1 (conclude root r)) := by
  rw [Compiler.compile, start_of_absent hstore habsent]
  dsimp only
  rw [Compiler.finish, Compiler.run, hlimit]
  dsimp only
  rw [hrun]
  dsimp only
  rw [judge]
  rcases conclude root r with e | ⟨text, requests⟩
  · rfl
  · cases (k.key? root c).1 <;> rfl

/-- What has been made is in the store. -/
theorem has_contextAfter (hstore : c.store = .memory entries) (l : Library) (key text : String)
    (requests : Nat) : (contextAfter c l (some key) (.ok (text, requests))).Has key text := by
  refine ⟨entries.insert key text, ?_, by simp⟩
  rw [contextAfter]
  simp only [Context.keep, hstore, Cache.Store.put, Context.withTree]

end Session

/-- A parent is safe against any process.  Whatever a process writes and says and however it ends, a
session whose key is not in the store, which is in memory, has output just if the process has ended
with code 0 and what it has written delivers the output; in every other case it fails and leaves the
store as it was.  If it has output and its root could be read, then any later session with the same
options, by then with any program, in which the root holds the same, starts no process and has the
same text. -/
theorem compile_any_process (k : Compiler) (hlimit : k.limit = none) (root : String) (c : Context)
    {entries : Table String} (hstore : c.store = .memory entries)
    (habsent : ∀ key ∈ (k.key? root c).1, entries.get? key = none)
    (written errors : Bytes) (elapsed : Nat) (code : Option Nat)
    (hrun : k.program ⟨k.options, none, root⟩ (Server.start (c.library.contents root).2) =
      .ok (leaves (Server.start (c.library.contents root).2) written errors elapsed code)) :
    (∀ output, (k.compile root c).1 = .ok output ↔
      code = some 0 ∧ ∃ requests body, Delivers written requests body ∧
        output = ⟨root, lossyString body, requests, false⟩) ∧
    (∀ e, (k.compile root c).1 = .error e → (k.compile root c).2.store = c.store) ∧
    ∀ output source, (k.compile root c).1 = .ok output →
      (c.library.contents root).1 = .ok (some source) →
      ∀ c', Later (k.compile root c).2 c' → (c'.library.contents root).1 = .ok (some source) →
      ∀ k' : Compiler, k'.options = k.options →
        k'.start root c' = (.kept ⟨root, output.text, 0, true⟩,
          { c' with library := (c'.library.contents root).2 }) ∧
        (k'.compile root c').1 = .ok ⟨root, output.text, 0, true⟩ := by
  have hconclude (text : String) (requests : Nat) :
      conclude root
          (leaves (Server.start (c.library.contents root).2) written errors elapsed code) =
        .ok (text, requests) ↔
      code = some 0 ∧ ∃ body, Delivers written requests body ∧ text = lossyString body :=
    conclude_leaves_eq_ok_iff
  rw [compile_of_absent hlimit hstore habsent hrun]
  dsimp only
  generalize leaves (Server.start (c.library.contents root).2) written errors elapsed code = r
    at hconclude ⊢
  refine ⟨?_, ?_, ?_⟩
  · intro output
    constructor
    · intro h
      rcases hresult : conclude root r with e | ⟨text, requests⟩
      · rw [hresult] at h
        cases h
      · rw [hresult] at h
        obtain ⟨hcode, body, hdelivers, rfl⟩ := (hconclude text requests).mp hresult
        exact ⟨hcode, requests, body, hdelivers, (Except.ok.inj h).symm⟩
    · rintro ⟨hcode, requests, body, hdelivers, rfl⟩
      rw [(hconclude (lossyString body) requests).mpr ⟨hcode, body, hdelivers, rfl⟩]
      rfl
  · intro e h
    rcases hresult : conclude root r with e' | made
    · rfl
    · rw [hresult] at h
      cases h
  · intro output source h hsource c' hlater hsource' k' hoptions
    rcases hresult : conclude root r with e | ⟨text, requests⟩
    · rw [hresult] at h
      cases h
    · rw [hresult] at h hlater
      obtain rfl := (Except.ok.inj h).symm
      have hkey : (k.key? root c).1 = some (Cache.key root source k.options) := by
        rw [key?_of_contents k hsource]
      rw [hkey] at hlater
      have hhas := (has_contextAfter hstore r.server.resolver (Cache.key root source k.options)
        text requests).later hlater
      rw [← hoptions] at hhas
      have hstart := hhas.start_eq (k := k') hsource'
      refine ⟨hstart, ?_⟩
      rw [Compiler.compile, hstart]
      rfl

/-- A program that asks whether there is a file, and sends one byte that is not a text. -/
def sendsByte : Program Library :=
  fun _ p ↦ .ok (leaves p (bytesOf "SRCBRIDGE_FILEEXISTSb.ts\nSRCBRIDGE_OUTPUT\n1 " ++ [0xff])
    [] 7 (some 0))

/-- A program that sends the same after a line of its own. -/
def chatters : Program Library :=
  fun _ p ↦ .ok (leaves p (bytesOf "hello\nSRCBRIDGE_OUTPUT\n1 " ++ [0xff]) [] 7 (some 0))

/-- Sources of one file. -/
def oneFile : Library :=
  ⟨.memory (.ofList [("a.ts", bytesOf "f()")]), ⟨.empty, .empty, 0⟩⟩

theorem delivers_byte :
    Delivers (bytesOf "SRCBRIDGE_FILEEXISTSb.ts\nSRCBRIDGE_OUTPUT\n1 " ++ [0xff]) 1 [0xff] := by
  refine ⟨bytesOf "SRCBRIDGE_FILEEXISTSb.ts\n", [0x31, 0x20, 0xff],
    ⟨[bytesOf "SRCBRIDGE_FILEEXISTSb.ts\n"], ?_, by decide +kernel, rfl⟩, ?_, by decide +kernel⟩
  · intro line hline
    obtain rfl := List.mem_singleton.mp hline
    exact ⟨.presence, bytesOf "b.ts", by decide +kernel, by decide +kernel⟩
  · have hchars : CountChars ['1'] := ⟨.inl rfl, fun _ h ↦ absurd h List.not_mem_nil⟩
    have hcount : Decimal.int64? ['1'] = some (([0xff] : Bytes).length : Int) := rfl
    exact .contents hchars (by decide) hcount

/-- The byte is had as a replacement character, then from the store by a compiler whose program has
become another one; and that program makes no output of its own. -/
theorem compile_any_process_byte :
    let k : Compiler := ⟨sendsByte, {}, none⟩
    let k' : Compiler := ⟨chatters, {}, none⟩
    let c : Context := ⟨oneFile, .memory .empty⟩
    (k.compile "a.ts" c).1 = .ok ⟨"a.ts", "\uFFFD", 1, false⟩ ∧
      (k'.compile "a.ts" (k.compile "a.ts" c).2).1 = .ok ⟨"a.ts", "\uFFFD", 0, true⟩ ∧
      (k'.compile "a.ts" c).2.store = .memory .empty := by
  intro k k' c
  have habsent (o : Option String) : ∀ key ∈ o, (Table.empty : Table String).get? key = none :=
    fun _ _ ↦ rfl
  obtain ⟨hok, -, hlater⟩ := compile_any_process k rfl "a.ts" c rfl (habsent _)
    (bytesOf "SRCBRIDGE_FILEEXISTSb.ts\nSRCBRIDGE_OUTPUT\n1 " ++ [0xff]) [] 7 (some 0) rfl
  obtain ⟨-, herror, -⟩ := compile_any_process k' rfl "a.ts" c rfl (habsent _)
    (bytesOf "hello\nSRCBRIDGE_OUTPUT\n1 " ++ [0xff]) [] 7 (some 0) rfl
  have hmade : (k.compile "a.ts" c).1 = .ok ⟨"a.ts", "\uFFFD", 1, false⟩ :=
    (hok _).mpr ⟨rfl, 1, [0xff], delivers_byte, by decide +kernel⟩
  have hstray : (k'.compile "a.ts" c).1 =
      .error (.io (.fault (.strayLine (bytesOf "hello\n")))) := by
    decide +kernel
  have hsame : ((k.compile "a.ts" c).2.library.contents "a.ts").1 =
      .ok (some (bytesOf "f()")) := by
    decide +kernel
  have hkept := hlater _ (bytesOf "f()") hmade rfl _ (.refl _) hsame k' rfl
  exact ⟨hmade, hkept.2, herror _ hstray⟩

end PipedCompiler.Session
