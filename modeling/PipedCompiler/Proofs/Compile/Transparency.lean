import PipedCompiler.Parent.Rehearsal
import PipedCompiler.Proofs.Bridge.Alternation
import PipedCompiler.Proofs.Compile.Depth
import PipedCompiler.Proofs.Compile.Source
import PipedCompiler.Proofs.Parent.Serving

/-!
# Compiling over a bridge

A compile over a bridge comes to what it comes to with the files at hand, and leaves the bridge as
if it had never been used: no byte of an answer is left over, and the client is not poisoned.  So
compiles that share a bridge do not know of each other.
-/

namespace PipedCompiler.Compile

open PipedCompiler.Text PipedCompiler.Bridge PipedCompiler.Parent

/-! ## Parents that answer from a table -/

/-- Whether an outlet, when it is in a good state, leads to a parent that answers each request from
these files, in whatever portions, and leaves it in a good state. -/
def AnswersFrom {σ : Type} [Outlet σ] (files : Table Bytes) (good : σ → Prop) : Prop :=
  ∀ (r : Request) (line : Bytes) (outlet : σ), good outlet → r.encode = .ok line →
    ∃ ds outlet', Outlet.send line outlet = (.ok ds, outlet') ∧ good outlet' ∧
      ∀ ending, Stream.Brings ⟨ds, ending⟩ (answer r files).1.encode (.spent ending)

/-- A scripted parent that answers all requests from these files. -/
structure Faithful (files : Table Bytes) (p : Scripted) : Prop where
  files : p.files = files
  overrides : p.overrides = []
  hangsUpAfter : p.hangsUpAfter = none

/-- A parent that does nothing but answer from some files. -/
def answering (files : Table Bytes) : Scripted :=
  ⟨files, [], none, Stream.silence, []⟩

theorem faithful_answering (files : Table Bytes) : Faithful files (answering files) :=
  ⟨rfl, rfl, rfl⟩

theorem answersFrom_faithful (files : Table Bytes) : AnswersFrom files (Faithful files) := by
  intro r line p hp hline
  rw [Request.encode_eq (Request.lineFeed_notMem_of_encode hline)] at hline
  obtain rfl := Except.ok.inj hline
  refine ⟨[.bytes (answer r files).1.encode], { p with heard := r.text :: p.heard }, ?_,
    ⟨hp.files, hp.overrides, hp.hangsUpAfter⟩, fun ending ↦ ?_⟩
  · simp [Outlet.send, Scripted.hear, Scripted.reply, Request.ofLine?_text, hp.files, hp.overrides,
      hp.hangsUpAfter]
  · simpa using Stream.Brings.of_portions [(answer r files).1.encode] ending

/-- A client between calls, with nothing left to read. -/
structure Idle {σ : Type} (good : σ → Prop) (c : Client σ) : Prop where
  poisoned : c.poisoned = false
  stream : ∃ ending, c.stream.Brings [] (.spent ending)
  outlet : good c.outlet

theorem idle_client {files : Table Bytes} {p : Scripted} (hp : Faithful files p) :
    Idle (Faithful files) p.client :=
  ⟨rfl, ⟨.closed, .nil _⟩, hp⟩

/-- Whether the bytes of each file can be counted in 63 bits, as those of a file in memory can. -/
def Countable (files : Table Bytes) : Prop :=
  ∀ path bs, files.get? path = some bs → bs.length < Nat.pow 2 63

theorem Countable.of_entries {files : Table Bytes}
    (h : ∀ entry ∈ files.entries, entry.2.length < Nat.pow 2 63) : Countable files :=
  fun path bs hfile ↦ h (path, bs) (Table.mem_entries_of_get? hfile)

theorem Countable.answer {files : Table Bytes} (h : Countable files) (r : Request) :
    (answer r files).1.Countable := by
  obtain ⟨kind, path⟩ := r
  cases kind with
  | presence => trivial
  | contents =>
      rw [answer_contents]
      cases hfile : files.get? path with
      | none => trivial
      | some bs => exact h path bs hfile

section Client

variable {σ : Type} [Outlet σ] {files : Table Bytes} {good : σ → Prop} {c : Client σ}

/-- A call is answered, and nothing is left behind it. -/
theorem Idle.request (hc : Idle good c) (hparent : AnswersFrom files good)
    (hcountable : Countable files) {r : Request} (hpath : lineFeed ∉ bytesOf r.path) :
    ∃ c', c.request r = (.ok (answer r files).1, c') ∧ Idle good c' := by
  obtain ⟨ending, hstream⟩ := hc.stream
  obtain ⟨ds, outlet, hsend, hgood, hbrings⟩ :=
    hparent r _ c.outlet hc.outlet (Request.encode_eq hpath)
  have hall : (c.stream.append ds).Brings ((answer r files).1.encode ++ []) (.spent ending) := by
    rw [List.append_nil]
    exact (hstream.append ds).trans (hbrings ending)
  obtain ⟨stream, hrest, hrequest⟩ := Client.request_answered hc.poisoned
    (Request.encode_eq hpath) hsend (frame_answer (hcountable.answer r)) hall
  exact ⟨_, hrequest, hc.poisoned, ⟨ending, hrest⟩, hgood⟩

theorem Idle.contents (hc : Idle good c) (hparent : AnswersFrom files good)
    (hcountable : Countable files) {path : String} (hpath : lineFeed ∉ bytesOf path) :
    ∃ c', Source.contents path c = (.ok (files.get? path), c') ∧ Idle good c' := by
  obtain ⟨c', hrequest, hc'⟩ := hc.request hparent hcountable (r := ⟨.contents, path⟩) hpath
  refine ⟨c', ?_, hc'⟩
  show c.readContents path = _
  rw [Client.readContents, hrequest, answer_contents]
  cases files.get? path with
  | none => rfl
  | some bs => rfl

theorem Idle.presence (hc : Idle good c) (hparent : AnswersFrom files good)
    (hcountable : Countable files) {path : String} (hpath : lineFeed ∉ bytesOf path) :
    ∃ c', Source.presence path c = (.ok (files.get? path).isSome, c') ∧ Idle good c' := by
  obtain ⟨c', hrequest, hc'⟩ := hc.request hparent hcountable (r := ⟨.presence, path⟩) hpath
  refine ⟨c', ?_, hc'⟩
  show c.readPresence path = _
  rw [Client.readPresence, hrequest, answer_presence]

/-- A dialogue over a bridge comes to what it comes to with the files at hand. -/
theorem Idle.runOver {α : Type} (hc : Idle good c) (hparent : AnswersFrom files good)
    (hcountable : Countable files) {d : Dialogue α}
    (hpaths : ∀ r ∈ d.requests files.get?, lineFeed ∉ bytesOf r.path) :
    ∃ c', d.runOver c = (.ok (d.run files.get?), c') ∧ Idle good c' := by
  induction d generalizing c with
  | done a => exact ⟨c, rfl, hc⟩
  | contents path next ih =>
      rw [Dialogue.requests, List.forall_mem_cons] at hpaths
      obtain ⟨c₁, hask, hc₁⟩ := hc.contents hparent hcountable hpaths.1
      obtain ⟨c₂, hrest, hc₂⟩ := ih _ hc₁ hpaths.2
      refine ⟨c₂, ?_, hc₂⟩
      rw [Dialogue.runOver, hask]
      exact hrest
  | presence path next ih =>
      rw [Dialogue.requests, List.forall_mem_cons] at hpaths
      obtain ⟨c₁, hask, hc₁⟩ := hc.presence hparent hcountable hpaths.1
      obtain ⟨c₂, hrest, hc₂⟩ := ih _ hc₁ hpaths.2
      refine ⟨c₂, ?_, hc₂⟩
      rw [Dialogue.runOver, hask]
      exact hrest

end Client

/-! ## One compile -/

theorem Idle.compileOver {σ : Type} [Outlet σ] {files : Table Bytes} {good : σ → Prop}
    {c : Client σ} {options : CompileOptions} {depth : Nat} {root : String} {compiled : Compiled}
    (hc : Idle good c) (hparent : AnswersFrom files good) (hcountable : Countable files)
    (hrun : (compile options depth root).run files.get? = .ok compiled)
    (hpaths : ∀ r ∈ (compile options depth root).requests files.get?, lineFeed ∉ bytesOf r.path) :
    ∃ c', Compile.compileOver options depth root c = (.ok (compiled.bridged root), c') ∧
      Idle good c' := by
  obtain ⟨c', hover, hc'⟩ := hc.runOver hparent hcountable hpaths
  rw [hrun] at hover
  exact ⟨c', compileOver_of_runOver hover, hc'⟩

/-! ## Many compiles -/

section Each

variable {files : Table Bytes} {options : CompileOptions}

/-- Compiles roots one after the other over one source. -/
def compileEach {β : Type} [Source β] (options : CompileOptions) (depth : Nat) :
    List String → β → List (Except Halt BridgedCompile) × β
  | [], b => ([], b)
  | root :: roots, b =>
    let (compiled, b) := compileOver options depth root b
    let (others, b) := compileEach options depth roots b
    (compiled :: others, b)

/-- Compiles over one bridge come to what each of them comes to alone and without a bridge: there is
an outcome for each root, never a failure of the bridge, which is found over a shelf of the files,
and also over the bridge after any other compiles. -/
theorem compileEach_transparent {σ : Type} [Outlet σ] {good : σ → Prop}
    (hparent : AnswersFrom files good) (hcountable : Countable files)
    (hreadable : Loading.Readable files.get?) {roots : List String}
    (hpaths : ∀ root ∈ roots, ∀ r ∈ questions files options root, lineFeed ∉ bytesOf r.path)
    {c : Client σ} (hc : Idle good c) :
    ∃ alone : String → BridgedCompile,
      (∀ root e, (alone root).result ≠ .error (.bridge e)) ∧
      ∀ depth, files.size < depth →
        (∀ root, (compileOver options depth root (⟨files, none, []⟩ : Shelf)).1 =
          .ok (alone root)) ∧
        (compileEach options depth roots c).1 = roots.map fun root ↦ .ok (alone root) := by
  choose compiled hcompiled using exists_compiled hreadable options
  refine ⟨fun root ↦ (compiled root).bridged root,
    fun root ↦ (compiled root).bridged_ne_bridge root, fun depth hdepth ↦ ⟨fun root ↦ ?_, ?_⟩⟩
  · rw [compileOver_shelf (hcompiled root depth hdepth).1]
  · induction roots generalizing c with
    | nil => rfl
    | cons root roots ih =>
        rw [List.forall_mem_cons] at hpaths
        obtain ⟨hrun, hquestions⟩ := hcompiled root depth hdepth
        obtain ⟨c', hover, hc'⟩ :=
          hc.compileOver hparent hcountable hrun (hquestions ▸ hpaths.1)
        rw [compileEach, hover, List.map_cons, ← ih hpaths.2 hc']

end Each

/-- A source and another one that it imports. -/
def twoFiles : Table Bytes :=
  .ofList [("a.ts", bytesOf "import {x} from './b'; let y = x;"),
    ("b.ts", bytesOf "export let x = 1;")]

/-- One root twice and then another one. -/
theorem compileEach_transparent_repeatedRoot :
    AnswersFrom twoFiles (Faithful twoFiles) ∧ Countable twoFiles ∧
      Loading.Readable twoFiles.get? ∧ Idle (Faithful twoFiles) (answering twoFiles).client ∧
      (∀ root ∈ ["a.ts", "a.ts", "b.ts"],
        ∀ r ∈ questions twoFiles { omitsDefaultLibrary := true } root, lineFeed ∉ bytesOf r.path) ∧
      ∃ alone : String → BridgedCompile,
        (∀ root e, (alone root).result ≠ .error (.bridge e)) ∧
        ∀ depth, 2 < depth →
          (∀ root, (compileOver { omitsDefaultLibrary := true } depth root
            (⟨twoFiles, none, []⟩ : Shelf)).1 = .ok (alone root)) ∧
          (compileEach { omitsDefaultLibrary := true } depth ["a.ts", "a.ts", "b.ts"]
            (answering twoFiles).client).1 =
              [.ok (alone "a.ts"), .ok (alone "a.ts"), .ok (alone "b.ts")] := by
  have hcountable : Countable twoFiles := .of_entries (by decide +kernel)
  have hreadable : Loading.Readable twoFiles.get? := .of_entries (by decide +kernel)
  have hidle : Idle (Faithful twoFiles) (answering twoFiles).client :=
    idle_client (faithful_answering twoFiles)
  have hpaths : ∀ root ∈ ["a.ts", "a.ts", "b.ts"],
      ∀ r ∈ questions twoFiles { omitsDefaultLibrary := true } root,
        lineFeed ∉ bytesOf r.path := by decide +kernel
  exact ⟨answersFrom_faithful twoFiles, hcountable, hreadable, hidle, hpaths,
    compileEach_transparent (answersFrom_faithful twoFiles) hcountable hreadable hpaths hidle⟩

/-! ## Rehearsals -/

theorem Idle.forget {files : Table Bytes} {c : Client Scripted} (hc : Idle (Faithful files) c) :
    Idle (Faithful files) { c with outlet := c.outlet.forget } :=
  ⟨hc.poisoned, hc.stream, hc.outlet.files, hc.outlet.overrides, hc.outlet.hangsUpAfter⟩

theorem Idle.rehearseFrom {files : Table Bytes} {options : CompileOptions} {depth : Nat}
    {compiled : String → Compiled} (hcountable : Countable files) {roots : List String}
    (hrun : ∀ root ∈ roots, (compile options depth root).run files.get? = .ok (compiled root))
    (hpaths : ∀ root ∈ roots, ∀ r ∈ (compile options depth root).requests files.get?,
      lineFeed ∉ bytesOf r.path)
    {c : Client Scripted} (hc : Idle (Faithful files) c) :
    ∃ rehearsed, Parent.rehearseFrom options depth roots c = .ok rehearsed ∧
      rehearsed.map Rehearsed.compile = roots.map fun root ↦ (compiled root).bridged root := by
  induction roots generalizing c with
  | nil => exact ⟨[], rfl, rfl⟩
  | cons root roots ih =>
      rw [List.forall_mem_cons] at hrun hpaths
      obtain ⟨c', hover, hc'⟩ :=
        hc.compileOver (answersFrom_faithful files) hcountable hrun.1 hpaths.1
      obtain ⟨rehearsed, hrest, hmap⟩ := ih hrun.2 hpaths.2 hc'.forget
      let this : Rehearsed :=
        ⟨(compiled root).bridged root, c'.outlet.heard.reverse, c'.roundTrips, c'.poisoned⟩
      refine ⟨this :: rehearsed, ?_, ?_⟩
      · rw [Parent.rehearseFrom, hover]
        dsimp only
        rw [hrest]
        rfl
      · rw [List.map_cons, List.map_cons, hmap]

/-- A rehearsal with a parent that answers from a table compiles each root as if it were alone and
the table at hand. -/
theorem rehearse_transparent {files : Table Bytes} {options : CompileOptions} {p : Scripted}
    (hp : Faithful files p) (hcountable : Countable files)
    (hreadable : Loading.Readable files.get?) {roots : List String}
    (hpaths : ∀ root ∈ roots, ∀ r ∈ questions files options root, lineFeed ∉ bytesOf r.path) :
    ∃ (alone : String → BridgedCompile) (rehearsed : List Rehearsed),
      (∀ root, (compileOver options (files.size + 1) root (⟨files, none, []⟩ : Shelf)).1 =
        .ok (alone root)) ∧
      rehearse options roots p = .ok rehearsed ∧
      rehearsed.map Rehearsed.compile = roots.map alone := by
  choose compiled hcompiled using exists_compiled hreadable options
  have hdepth : ∀ root ∈ roots, files.size < roots.length * p.importLimit := by
    intro root hroot
    have hpos : 0 < roots.length := List.length_pos_of_mem hroot
    refine Nat.lt_of_lt_of_le ?_ (Nat.le_mul_of_pos_left _ hpos)
    rw [Scripted.importLimit, hp.files]
    omega
  have hrun : ∀ root ∈ roots,
      (compile options (roots.length * p.importLimit) root).run files.get? = .ok (compiled root) :=
    fun root hroot ↦ (hcompiled root _ (hdepth root hroot)).1
  have hasked : ∀ root ∈ roots,
      ∀ r ∈ (compile options (roots.length * p.importLimit) root).requests files.get?,
        lineFeed ∉ bytesOf r.path :=
    fun root hroot ↦ (hcompiled root _ (hdepth root hroot)).2 ▸ hpaths root hroot
  obtain ⟨rehearsed, hrehearse, hmap⟩ := (idle_client hp).rehearseFrom hcountable hrun hasked
  refine ⟨_, rehearsed, fun root ↦ ?_, hrehearse, hmap⟩
  rw [compileOver_shelf (hcompiled root _ (Nat.lt_succ_self _)).1]

end PipedCompiler.Compile
