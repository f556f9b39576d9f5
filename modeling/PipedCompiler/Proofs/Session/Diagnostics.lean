import PipedCompiler.Proofs.Compile.Unsendable
import PipedCompiler.Proofs.Compile.Wording
import PipedCompiler.Session.Basic
import PipedCompiler.Worker.Compiler

/-!
# Diagnostics that cross over

A parent reads the diagnostics of a process off the lines that the process has said.  It gets the
ones that the compile in the process has failed with, each of them as it was and in their order, as
long as these can be told from their lines: an import that leads nowhere may have a line feed in its
specifier and break the line that it is quoted in.
-/

namespace PipedCompiler.Session

open PipedCompiler.Text PipedCompiler.Bridge PipedCompiler.Parent PipedCompiler.Compile
open PipedCompiler.Worker PipedCompiler.Diagnostic

theorem shownLines_eq (ds : List Diagnostic) :
    shownLines ds = bytesOf (String.ofList (ds.flatMap fun d ↦ d.text.toList ++ ['\n'])) := by
  induction ds with
  | nil => rfl
  | cons d ds ih =>
      rw [shownLines, List.flatMap_cons, ← shownLines, ih]
      simp [bytesOf, Utf8.encode_append]

/-- Diagnostics that can be told from their lines are got back from them. -/
theorem diagnosticsOf_shownLines {ds : List Diagnostic} (h : ∀ d ∈ ds, d.Legible) :
    diagnosticsOf (lossyString (shownLines ds)) = ds := by
  have hlines : lines (ds.flatMap fun d ↦ d.text.toList ++ ['\n']) =
      ds.map fun d ↦ d.text.toList := by
    have hflat : (ds.flatMap fun d ↦ d.text.toList ++ ['\n']) =
      (ds.map fun d ↦ d.text.toList).flatMap (· ++ ['\n']) := by rw [List.flatMap_map]
    rw [hflat]
    refine lines_flatMap fun t ht ↦ ?_
    obtain ⟨d, hd, rfl⟩ := List.mem_map.mp ht
    exact ⟨(h d hd).one_line_text, (h d hd).endsSolid_text⟩
  rw [shownLines_eq, lossyString_bytesOf, diagnosticsOf, String.toList_ofList, hlines]
  clear hlines
  induction ds with
  | nil => rfl
  | cons d ds ih =>
      rw [List.forall_mem_cons] at h
      rw [List.map_cons, List.filterMap_cons, String.ofList_toList, h.1.ofLine?_text, ih h.2]

/-! ## Compiles that fail -/

/-- A compile over a source fails as the compile that runs over it does. -/
theorem exists_runOver_of_failed {β : Type} [Source β] {options : CompileOptions} {depth : Nat}
    {root other : String} {b b' : β} {compiled : BridgedCompile} {ds : List Diagnostic}
    (hover : compileOver options depth root b = (.ok compiled, b'))
    (hfailed : compiled.result = .error (.compilationFailed other ds)) :
    ∃ c : Compiled, (compile options depth root).runOver b = (.ok (.ok c), b') ∧
      compiled = c.bridged root := by
  have hbridged (c : Compiled) (hrun : (compile options depth root).runOver b = (.ok (.ok c), b')) :
      compiled = c.bridged root :=
    (Except.ok.inj (Prod.mk.inj (hover.symm.trans (compileOver_of_runOver hrun))).1)
  rcases hrun : (compile options depth root).runOver b with ⟨e | halt | c, b₁⟩
  · rw [compileOver, hrun] at hover
    cases hover
    cases hfailed
  · rw [compileOver, hrun] at hover
    cases hover
  · obtain rfl : b₁ = b' := by
      rw [compileOver_of_runOver hrun] at hover
      exact (Prod.mk.inj hover).2
    exact ⟨c, rfl, hbridged c hrun⟩

theorem ne_nil_of_hasExtension {path : List Char} (h : Language.hasExtension path = true) :
    path ≠ [] := by
  rintro rfl
  cases h

/-- What is sought has a name, if the root has one. -/
theorem ne_empty_of_sought {files : String → Option Bytes} {options : CompileOptions}
    {root path : String} (hroot : root ≠ "") (h : Sought files options root path) : path ≠ "" := by
  rcases h with hstart | ⟨importer, i, -, hprobe⟩
  · rw [starts] at hstart
    split at hstart
    · rwa [List.mem_singleton.mp hstart]
    · rcases List.mem_cons.mp hstart with rfl | hstart
      · rw [CompileOptions.libraryPath]
        cases options.libraryLayout <;> cases options.target <;> decide
      · rwa [List.mem_singleton.mp hstart]
  · simp only [probes] at hprobe
    split at hprobe
    · next hextension =>
      rw [List.mem_singleton.mp hprobe]
      simpa using ne_nil_of_hasExtension hextension
    · rcases List.mem_cons.mp hprobe with rfl | hprobe
      · simp
      · rw [List.mem_singleton.mp hprobe]
        simp

section Compile

variable {σ : Type} [Outlet σ] {files : Table Bytes} {good : σ → Prop} {c c' : Client σ}
variable {options : CompileOptions} {depth : Nat} {root other : String}

/-- What a compile over a bridge to a healthy parent fails with is what the parent reads off the
lines that the process says, if no path that is sought announces a severity, and no import that
leads nowhere has a line feed in its specifier. -/
theorem diagnosticsOf_reported (hparent : AnswersFrom files good) (hcountable : Countable files)
    (hc : Idle good c) (hne : root ≠ "") (hroot : '\n' ∉ root.toList)
    (hnames : ∀ path, Sought files.get? options root path → ¬ Announces path.toList)
    (hspecifiers : ∀ importer i, Stands files.get? options root importer i →
      leads files.get? importer i = false → '\n' ∉ i.specifier.toList)
    {compiled : BridgedCompile} {ds : List Diagnostic}
    (hover : compileOver options depth root c = (.ok compiled, c'))
    (hfailed : compiled.result = .error (.compilationFailed other ds)) :
    other = root ∧ compiled.reported = ds ∧
      diagnosticsOf (lossyString (shownLines compiled.reported)) = ds := by
  obtain ⟨inner, hrunOver, rfl⟩ := exists_runOver_of_failed hover hfailed
  -- The bridge has carried all questions, so there is no line feed in them.
  have hsendable : ∀ r ∈ (compile options depth root).requests files.get?,
      lineFeed ∉ bytesOf r.path := by
    intro r hr hline
    obtain ⟨r, -, -, c₁, hbroken, -⟩ := hc.runOver_unsendable hparent hcountable ⟨r, hr, hline⟩
    cases hrunOver.symm.trans hbroken
  obtain ⟨c₁, hall, -⟩ := hc.runOver hparent hcountable hsendable
  have hrun : (compile options depth root).run files.get? = .ok inner :=
    (Except.ok.inj (Prod.mk.inj (hrunOver.symm.trans hall)).1).symm
  have hpaths : ∀ path, Sought files.get? options root path → IsFileName path.toList := by
    intro path hpath
    refine ⟨by simpa using ne_empty_of_sought hne hpath, fun hline ↦ ?_, hnames path hpath⟩
    rcases hpath with hstart | ⟨importer, i, hi, hprobe⟩
    · exact hroot (newline_mem_of_mem_starts hstart hline)
    · obtain ⟨r, hr, hline⟩ := (exists_newline_request_iff hrun hroot).mpr
        ⟨importer, i, hi, (newline_mem_probe_iff hprobe).mp hline⟩
      exact hsendable r hr (lineFeed_mem_bytesOf.mpr hline)
  have hlegible := legible_of_mem_reported hrun hpaths hspecifiers
  obtain ⟨t, host, -, -, -, rfl⟩ := walk_of_run_compile hrun
  obtain ⟨hshown, hreported, -⟩ := ((Program.ofTrail files.get? options root t).verdict_conclusion
    options host.diagnostics).failed _ hfailed
  obtain ⟨rfl, rfl⟩ := CompileError.compilationFailed.inj hshown
  rw [Compiled.reported_bridged] at hreported ⊢
  exact ⟨rfl, hreported, hreported ▸ diagnosticsOf_shownLines hlegible⟩

/-- What holds of the imports of each file holds of those of a program. -/
theorem forall_stands_of_entries {P : String → Language.Import → Prop}
    (h : ∀ entry ∈ files.entries, ∀ tree ∈ Language.SyntaxTree.ofText? (Host.textOf entry.2),
      ∀ i ∈ tree.imports, P entry.1 i) (importer : String) (i : Language.Import)
    (hi : Stands files.get? options root importer i) : P importer i := by
  obtain ⟨-, bs, tree, hfile, htree, hmem⟩ := hi
  exact h (importer, bs) (Table.mem_entries_of_get? hfile) tree htree i hmem

/-- A compile that fails with the files at hand fails over the bridge. -/
theorem compileOver_failed (ds : List Diagnostic) (hparent : AnswersFrom files good)
    (hcountable : Countable files) (hc : Idle good c)
    (hrun : ((compile options depth root).run files.get?).map (fun c ↦ (c.outcome, c.reported)) =
      .ok (.error ds, ds))
    (hpaths : ∀ r ∈ (compile options depth root).requests files.get?,
      lineFeed ∉ bytesOf r.path) :
    ∃ c', compileOver options depth root c =
      (.ok ⟨.error (.compilationFailed root ds), ds⟩, c') := by
  rcases hresult : (compile options depth root).run files.get? with halt | inner
  · rw [hresult] at hrun
    cases hrun
  · rw [hresult] at hrun
    obtain ⟨outcome, reported⟩ := inner
    obtain ⟨rfl, rfl⟩ : outcome = .error ds ∧ reported = ds := Prod.mk.inj (Except.ok.inj hrun)
    obtain ⟨c', hover, -⟩ := hc.compileOver hparent hcountable hresult hpaths
    exact ⟨c', hover⟩

end Compile

/-- A file with brackets in its name that imports what is not there. -/
def bracketed : Table Bytes :=
  .ofList [("dir (1)/a.ts", bytesOf "import b from './b'\nb += c")]

theorem diagnosticsOf_reported_bracketed :
    AnswersFrom bracketed (Faithful bracketed) ∧ Countable bracketed ∧
      Idle (Faithful bracketed) (answering bracketed).client ∧ "dir (1)/a.ts" ≠ "" ∧
      '\n' ∉ "dir (1)/a.ts".toList ∧
      (∀ path, Sought bracketed.get? { omitsDefaultLibrary := true } "dir (1)/a.ts" path →
        ¬ Announces path.toList) ∧
      (∀ importer i,
        Stands bracketed.get? { omitsDefaultLibrary := true } "dir (1)/a.ts" importer i →
          leads bracketed.get? importer i = false → '\n' ∉ i.specifier.toList) ∧
      ∃ compiled c' ds,
        compileOver { omitsDefaultLibrary := true } 2 "dir (1)/a.ts" (answering bracketed).client =
          (.ok compiled, c') ∧
        compiled.result = .error (.compilationFailed "dir (1)/a.ts" ds) ∧ ds.length = 3 ∧
        compiled.reported = ds ∧
        diagnosticsOf (lossyString (shownLines compiled.reported)) = ds := by
  have hcountable : Countable bracketed := .of_entries (by decide +kernel)
  have hidle : Idle (Faithful bracketed) (answering bracketed).client :=
    idle_client (faithful_answering bracketed)
  have hprobes : ∀ importer i,
      Stands bracketed.get? { omitsDefaultLibrary := true } "dir (1)/a.ts" importer i →
        '\n' ∉ i.specifier.toList ∧ ∀ path ∈ probes importer i.specifier, ':' ∉ path.toList :=
    forall_stands_of_entries (by decide +kernel)
  have hnames : ∀ path, Sought bracketed.get? { omitsDefaultLibrary := true } "dir (1)/a.ts" path →
      ¬ Announces path.toList := by
    rintro path (hstart | ⟨importer, i, hi, hpath⟩)
    · rw [List.mem_singleton.mp hstart]
      exact not_announces_of_notMem (by decide)
    · exact not_announces_of_notMem ((hprobes importer i hi).2 path hpath)
  have hspecifiers : ∀ importer i,
      Stands bracketed.get? { omitsDefaultLibrary := true } "dir (1)/a.ts" importer i →
        leads bracketed.get? importer i = false → '\n' ∉ i.specifier.toList :=
    fun importer i hi _ ↦ (hprobes importer i hi).1
  have hpaths : ∀ r ∈ (compile { omitsDefaultLibrary := true } 2 "dir (1)/a.ts").requests
      bracketed.get?, lineFeed ∉ bytesOf r.path := by decide +kernel
  obtain ⟨c', hover⟩ := compileOver_failed
    [⟨some "dir (1)/a.ts", some 1, some 15, .error, "TS2307", "Cannot find module './b'."⟩,
      ⟨some "dir (1)/a.ts", some 2, some 1, .error, "TS2632",
        "Cannot assign to 'b' because it is an import."⟩,
      ⟨some "dir (1)/a.ts", some 2, some 6, .error, "TS2304", "Cannot find name 'c'."⟩]
    (answersFrom_faithful bracketed) hcountable hidle (by decide +kernel) hpaths
  refine ⟨answersFrom_faithful bracketed, hcountable, hidle, by decide, by decide, hnames,
    hspecifiers, _, c', _, hover, rfl, rfl, ?_⟩
  exact (diagnosticsOf_reported (answersFrom_faithful bracketed) hcountable hidle (by decide)
    (by decide) hnames hspecifiers hover rfl).2

/-- A file that imports what is not there, by a specifier with a line feed that is folded away. -/
def foldedLine : Table Bytes :=
  .ofList [("a.ts", bytesOf "import b from './x\\n/../b'")]

/-- A line feed in the specifier of an import breaks the line that shows it. -/
theorem diagnosticsOf_breaks_line :
    AnswersFrom foldedLine (Faithful foldedLine) ∧ '\n' ∉ "a.ts".toList ∧
      Idle (Faithful foldedLine) (answering foldedLine).client ∧
      ∃ compiled c' ds,
        compileOver { omitsDefaultLibrary := true } 2 "a.ts" (answering foldedLine).client =
          (.ok compiled, c') ∧
        compiled.result = .error (.compilationFailed "a.ts" ds) ∧
        ds.map message = ["Cannot find module './x\n/../b'."] ∧
        (diagnosticsOf (lossyString (shownLines compiled.reported))).map message =
          ["Cannot find module './x"] := by
  have hcountable : Countable foldedLine := .of_entries (by decide +kernel)
  have hidle : Idle (Faithful foldedLine) (answering foldedLine).client :=
    idle_client (faithful_answering foldedLine)
  have hpaths : ∀ r ∈ (compile { omitsDefaultLibrary := true } 2 "a.ts").requests foldedLine.get?,
      lineFeed ∉ bytesOf r.path := by decide +kernel
  obtain ⟨c', hover⟩ := compileOver_failed
    [⟨some "a.ts", some 1, some 15, .error, "TS2307", "Cannot find module './x\n/../b'."⟩]
    (answersFrom_faithful foldedLine) hcountable hidle (by decide +kernel) hpaths
  exact ⟨answersFrom_faithful foldedLine, by decide, hidle, _, c', _, hover, rfl, rfl,
    by decide +kernel⟩

end PipedCompiler.Session
