import PipedCompiler.Proofs.Compile.Sought
import PipedCompiler.Proofs.Compile.Transparency

/-!
# Paths that cannot be sent

A line feed in a path would end the line of a request early, so such a path is not asked about at
all.  Specifiers may stand for any character, also for a line feed; so a parent that does nothing
wrong can be left without a question, and a compile over its bridge without a result.  There is
nothing else that makes a compile fail over the bridge to such a parent.
-/

namespace PipedCompiler.Compile

open PipedCompiler.Text PipedCompiler.Bridge PipedCompiler.Parent PipedCompiler.Language

/-! ## Asking about paths with line feeds -/

section Client

variable {α σ : Type} [Outlet σ] {files : Table Bytes} {good : σ → Prop} {c : Client σ}

/-- A path with a line feed is not asked about, and nothing changes. -/
theorem Idle.request_unsendable (hc : Idle good c) {r : Request}
    (hpath : lineFeed ∈ bytesOf r.path) : c.request r = (.error (.invalidPath r.path), c) := by
  have hencode : r.encode = .error (.invalidPath r.path) := by simp [Request.encode, hpath]
  rw [Client.request, hc.poisoned, Client.exchange, hencode]
  rfl

theorem Idle.contents_unsendable (hc : Idle good c) {path : String}
    (hpath : lineFeed ∈ bytesOf path) :
    Source.contents path c = (.error (.invalidPath path), c) := by
  have hrequest := hc.request_unsendable (r := ⟨.contents, path⟩) hpath
  show c.readContents path = _
  rw [Client.readContents, hrequest]

theorem Idle.presence_unsendable (hc : Idle good c) {path : String}
    (hpath : lineFeed ∈ bytesOf path) :
    Source.presence path c = (.error (.invalidPath path), c) := by
  have hrequest := hc.request_unsendable (r := ⟨.presence, path⟩) hpath
  show c.readPresence path = _
  rw [Client.readPresence, hrequest]

/-- A dialogue breaks off at a path with a line feed, and the client may go on. -/
theorem Idle.runOver_unsendable (hc : Idle good c) (hparent : AnswersFrom files good)
    (hcountable : Countable files) {d : Dialogue α}
    (hpaths : ∃ r ∈ d.requests files.get?, lineFeed ∈ bytesOf r.path) :
    ∃ r ∈ d.requests files.get?, lineFeed ∈ bytesOf r.path ∧
      ∃ c', d.runOver c = (.error (.invalidPath r.path), c') ∧ Idle good c' := by
  induction d generalizing c with
  | done a =>
      obtain ⟨r, hr, -⟩ := hpaths
      cases hr
  | contents path next ih =>
      by_cases hpath : lineFeed ∈ bytesOf path
      · refine ⟨_, .head _, hpath, c, ?_, hc⟩
        rw [Dialogue.runOver, hc.contents_unsendable hpath]
      · obtain ⟨r, hr, hline⟩ := hpaths
        obtain ⟨c₁, hask, hc₁⟩ := hc.contents hparent hcountable hpath
        rcases List.mem_cons.mp hr with rfl | hr
        · exact absurd hline hpath
        · obtain ⟨r, hr, hbreaks⟩ := ih _ hc₁ ⟨r, hr, hline⟩
          rw [Dialogue.runOver, hask]
          exact ⟨r, .tail _ hr, hbreaks⟩
  | presence path next ih =>
      by_cases hpath : lineFeed ∈ bytesOf path
      · refine ⟨_, .head _, hpath, c, ?_, hc⟩
        rw [Dialogue.runOver, hc.presence_unsendable hpath]
      · obtain ⟨r, hr, hline⟩ := hpaths
        obtain ⟨c₁, hask, hc₁⟩ := hc.presence hparent hcountable hpath
        rcases List.mem_cons.mp hr with rfl | hr
        · exact absurd hline hpath
        · obtain ⟨r, hr, hbreaks⟩ := ih _ hc₁ ⟨r, hr, hline⟩
          rw [Dialogue.runOver, hask]
          exact ⟨r, .tail _ hr, hbreaks⟩

end Client

/-! ## Line feeds in paths -/

theorem newline_notMem_libraryPath (options : CompileOptions) :
    '\n' ∉ options.libraryPath.toList := by
  rw [CompileOptions.libraryPath]
  cases options.libraryLayout with
  | current => cases options.target <;> decide
  | legacy => cases options.target <;> decide

theorem newline_mem_of_mem_starts {options : CompileOptions} {root path : String}
    (hpath : path ∈ starts options root) (hline : '\n' ∈ path.toList) : '\n' ∈ root.toList := by
  rw [starts] at hpath
  split at hpath
  · rwa [← List.mem_singleton.mp hpath]
  · rcases List.mem_cons.mp hpath with rfl | hpath
    · exact absurd hline (newline_notMem_libraryPath options)
    · rwa [← List.mem_singleton.mp hpath]

/-- What an import may lead to has a line feed if the import's base has one. -/
theorem newline_mem_probe_iff {importer specifier path : String}
    (hpath : path ∈ probes importer specifier) :
    '\n' ∈ path.toList ↔ '\n' ∈ importBase importer.toList specifier.toList := by
  simp only [probes] at hpath
  generalize importBase importer.toList specifier.toList = base at hpath ⊢
  split at hpath
  · rw [List.mem_singleton.mp hpath, String.toList_ofList]
  · rcases List.mem_cons.mp hpath with rfl | hpath
    · simp
    · rw [List.mem_singleton.mp hpath]
      simp

/-- A compile asks about a path with a line feed just if an import of its files has one in its
base. -/
theorem exists_newline_request_iff {files : String → Option Bytes} {options : CompileOptions}
    {depth : Nat} {root : String} {compiled : Compiled}
    (hrun : (compile options depth root).run files = .ok compiled) (hroot : '\n' ∉ root.toList) :
    (∃ r ∈ (compile options depth root).requests files, '\n' ∈ r.path.toList) ↔
      ∃ importer i, Stands files options root importer i ∧
        '\n' ∈ importBase importer.toList i.specifier.toList := by
  constructor
  · rintro ⟨r, hr, hline⟩
    rcases sought_of_mem_requests hr with hstart | ⟨importer, i, hi, hprobe⟩
    · exact absurd (newline_mem_of_mem_starts hstart hline) hroot
    · exact ⟨importer, i, hi, (newline_mem_probe_iff hprobe).mp hline⟩
  · rintro ⟨importer, i, hi, hline⟩
    obtain ⟨r, hr, hprobe⟩ := exists_request_of_import hrun hi
    exact ⟨r, hr, (newline_mem_probe_iff hprobe).mpr hline⟩

/-! ## Compiles over a healthy bridge -/

section Compile

variable {σ : Type} [Outlet σ] {files : Table Bytes} {good : σ → Prop} {c : Client σ}
variable {options : CompileOptions} {depth : Nat} {root : String}

/-- A compile that comes to a path with a line feed comes to nothing else. -/
theorem Idle.compileOver_unsendable (hc : Idle good c) (hparent : AnswersFrom files good)
    (hcountable : Countable files)
    (hpaths : ∃ r ∈ (compile options depth root).requests files.get?,
      lineFeed ∈ bytesOf r.path) :
    ∃ r ∈ (compile options depth root).requests files.get?, lineFeed ∈ bytesOf r.path ∧
      ∃ c', Compile.compileOver options depth root c =
        (.ok ⟨.error (.bridge (.invalidPath r.path)), []⟩, c') ∧ Idle good c' := by
  obtain ⟨r, hr, hpath, c', hover, hc'⟩ := hc.runOver_unsendable hparent hcountable hpaths
  refine ⟨r, hr, hpath, c', ?_, hc'⟩
  rw [Compile.compileOver, hover]

/-- A compile over a bridge to a parent that answers everything fails there just if an import of
its files has a line feed in its base; then the path is what is wrong, and the bridge can go on. -/
theorem compileOver_bridge_iff (hparent : AnswersFrom files good) (hcountable : Countable files)
    (hreadable : Loading.Readable files.get?) (hdepth : files.size < depth)
    (hroot : '\n' ∉ root.toList) (hc : Idle good c) :
    ∃ compiled c', compileOver options depth root c = (.ok compiled, c') ∧ Idle good c' ∧
      (∀ e, compiled.result = .error (.bridge e) →
        ∃ path, e = .invalidPath path ∧ '\n' ∈ path.toList) ∧
      ((∃ e, compiled.result = .error (.bridge e)) ↔
        ∃ importer i, Stands files.get? options root importer i ∧
          '\n' ∈ importBase importer.toList i.specifier.toList) := by
  obtain ⟨compiled, hrun⟩ := run_compile hreadable hdepth options root
  rw [← exists_newline_request_iff hrun hroot]
  by_cases hline : ∃ r ∈ (compile options depth root).requests files.get?, '\n' ∈ r.path.toList
  · simp only [← lineFeed_mem_bytesOf] at hline
    obtain ⟨r, -, hpath, c', hover, hc'⟩ := hc.compileOver_unsendable hparent hcountable hline
    simp only [lineFeed_mem_bytesOf] at hline hpath
    refine ⟨⟨.error (.bridge (.invalidPath r.path)), []⟩, c', hover, hc', ?_, ?_⟩
    · rintro e ⟨⟩
      exact ⟨r.path, rfl, hpath⟩
    · exact iff_of_true ⟨_, rfl⟩ hline
  · have hpaths : ∀ r ∈ (compile options depth root).requests files.get?,
        lineFeed ∉ bytesOf r.path :=
      fun r hr hpath ↦ hline ⟨r, hr, lineFeed_mem_bytesOf.mp hpath⟩
    obtain ⟨c', hover, hc'⟩ := hc.compileOver hparent hcountable hrun hpaths
    refine ⟨compiled.bridged root, c', hover, hc', ?_, ?_⟩
    · intro e he
      exact absurd he (compiled.bridged_ne_bridge root e)
    · exact iff_of_false (fun ⟨e, he⟩ ↦ compiled.bridged_ne_bridge root e he) hline

end Compile

/-- A file that imports what cannot be asked about. -/
def brokenLine : Table Bytes :=
  .ofList [("a.ts", bytesOf "import b from 'b\\nc.ts'")]

theorem compileOver_bridge_iff_brokenLine :
    AnswersFrom brokenLine (Faithful brokenLine) ∧ Countable brokenLine ∧
      Loading.Readable brokenLine.get? ∧ brokenLine.size < 2 ∧ '\n' ∉ "a.ts".toList ∧
      Idle (Faithful brokenLine) (answering brokenLine).client ∧
      ∃ compiled c', compileOver {} 2 "a.ts" (answering brokenLine).client = (.ok compiled, c') ∧
        Idle (Faithful brokenLine) c' ∧
        (∀ e, compiled.result = .error (.bridge e) →
          ∃ path, e = .invalidPath path ∧ '\n' ∈ path.toList) ∧
        ((∃ e, compiled.result = .error (.bridge e)) ↔
          ∃ importer i, Stands brokenLine.get? {} "a.ts" importer i ∧
            '\n' ∈ importBase importer.toList i.specifier.toList) := by
  have hcountable : Countable brokenLine := .of_entries (by decide +kernel)
  have hreadable : Loading.Readable brokenLine.get? := .of_entries (by decide +kernel)
  have hdepth : brokenLine.size < 2 := by decide
  have hroot : '\n' ∉ "a.ts".toList := by decide
  have hidle : Idle (Faithful brokenLine) (answering brokenLine).client :=
    idle_client (faithful_answering brokenLine)
  exact ⟨answersFrom_faithful brokenLine, hcountable, hreadable, hdepth, hroot, hidle,
    compileOver_bridge_iff (answersFrom_faithful brokenLine) hcountable hreadable hdepth hroot
      hidle⟩

/-- An import can make a compile fail over the bridge to a parent that answers everything. -/
theorem compileOver_breaks_line :
    AnswersFrom brokenLine (Faithful brokenLine) ∧ '\n' ∉ "a.ts".toList ∧
      Idle (Faithful brokenLine) (answering brokenLine).client ∧
      (compileOver { omitsDefaultLibrary := true } 2 "a.ts" (answering brokenLine).client).1 =
        .ok ⟨.error (.bridge (.invalidPath "b\nc.ts")), []⟩ := by
  have hidle : Idle (Faithful brokenLine) (answering brokenLine).client :=
    idle_client (faithful_answering brokenLine)
  have hcountable : Countable brokenLine := .of_entries (by decide +kernel)
  have hpaths : ∃ r ∈ (compile { omitsDefaultLibrary := true } 2 "a.ts").requests brokenLine.get?,
      lineFeed ∈ bytesOf r.path :=
    ⟨⟨.contents, "b\nc.ts"⟩, by decide +kernel, by decide⟩
  have honly : ∀ r ∈ (compile { omitsDefaultLibrary := true } 2 "a.ts").requests brokenLine.get?,
      lineFeed ∈ bytesOf r.path → r.path = "b\nc.ts" := by
    decide +kernel
  obtain ⟨r, hr, hpath, c', hover, -⟩ :=
    hidle.compileOver_unsendable (answersFrom_faithful brokenLine) hcountable hpaths
  refine ⟨answersFrom_faithful brokenLine, by decide, hidle, ?_⟩
  rw [hover, honly r hr hpath]

end PipedCompiler.Compile
