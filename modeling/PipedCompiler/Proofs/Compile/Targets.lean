import PipedCompiler.Proofs.Compile.Stages
import PipedCompiler.Proofs.Language.Lowering

/-!
# Targets

A program without the default library is loaded in the same way for all targets, and the same is
found about it.  The target only decides on the keywords of the declarations that are emitted.
-/

namespace PipedCompiler.Compile

open PipedCompiler.Text PipedCompiler.Bridge PipedCompiler.Language

/-! ## Steps of loading side by side -/

/-- The file as one that has been loaded for another target. -/
def LoadedFile.retarget (target : LanguageTarget) (f : LoadedFile) : LoadedFile :=
  { f with source := { f.source with target } }

/-- Loading that has come as far with other options and for another target. -/
def Progress.retarget (g : CompileOptions → CompileOptions) (target : LanguageTarget)
    (p : Progress) : Progress :=
  ⟨p.host.mapOptions g, p.found, p.files.map (LoadedFile.retarget target)⟩

namespace Loading

variable {g : CompileOptions → CompileOptions}

theorem carries_sourceFile (path : String) (target target' : LanguageTarget) :
    Carries (Progress.retarget g target')
      (Option.map fun s : SourceFile ↦ { s with target := target' })
      (hosted (Host.sourceFile path target)) (hosted (Host.sourceFile path target')) := by
  refine .hosted (fun _ _ ↦ rfl) fun host ↦ ?_
  rw [Host.sourceFile, Host.sourceFile]
  simp only [StateT.run_bind, Host.blind_load path host, StateT.run_pure]
  rw [map_bind, bind_map_left]
  apply bind_congr
  rintro ⟨text, host'⟩
  cases text <;> rfl

variable (hasks : ∀ o, (g o).asksExistence = o.asksExistence)
include hasks

theorem carries_resolve (target : LanguageTarget) (importer specifier : String) :
    Carries (Progress.retarget g target) id (resolve importer specifier)
      (resolve importer specifier) :=
  resolve_of_exists (P := fun m ↦ Carries (Progress.retarget g target) id m m) .pure .bind
    (fun path ↦ .hosted (fun _ _ ↦ rfl) (Host.blind_exists hasks path)) importer specifier

/-- A file is loaded for one target as for the other. -/
theorem carries_load (place : Surroundings) (target target' : LanguageTarget) (depth : Nat)
    (path : String) :
    Carries (Progress.retarget g target') id (load place target depth path)
      (load place target' depth path) := by
  induction depth generalizing path with
  | zero =>
      rw [load, load]
      refine .get fun p ↦ ?_
      dsimp only [Progress.retarget]
      cases p.found.get? (place.canonicalName path) with
      | some found => exact .pure found
      | none => exact .throw .deepImports
  | succ depth ih =>
      rw [load, load]
      refine .get fun p ↦ ?_
      dsimp only [Progress.retarget]
      cases p.found.get? (place.canonicalName path) with
      | some found => exact .pure found
      | none =>
          refine .bind (.modify fun _ ↦ rfl) fun _ ↦ ?_
          refine .bind (carries_sourceFile path target target') fun source ↦ ?_
          cases source with
          | none => exact .bind (.modify fun _ ↦ rfl) fun _ ↦ .pure false
          | some source =>
              dsimp only [Option.map]
              cases SyntaxTree.ofText? source.chars with
              | none => exact .throw .unreadableWord
              | some tree =>
                  have himports := Carries.loadImports (carries_resolve hasks target') ih path
                    tree.imports
                  exact .bind himports fun _ ↦ .bind (.modify fun _ ↦ rfl) fun _ ↦ .pure true

end Loading

/-! ## Programs side by side -/

namespace Program

/-- The program as one that has been loaded for another target. -/
def retarget (target : LanguageTarget) (p : Program) : Program :=
  ⟨p.root, target, p.files.map (LoadedFile.retarget target), p.missing⟩

section Load

variable {options : CompileOptions} (homits : options.omitsDefaultLibrary = true)
variable (target : LanguageTarget) (libraryLayout : LibraryLayout)
include homits

theorem carries_demandAll (place : Surroundings) (depth : Nat) (path : String) :
    Loading.Carries (Progress.retarget (fun o ↦ { o with target, libraryLayout }) target) id
      (demandAll place options depth path)
      (demandAll place { options with target, libraryLayout } depth path) := by
  have hlibrary : demandLibrary place options depth = pure [] := if_pos homits
  have hlibrary' : demandLibrary place { options with target, libraryLayout } depth = pure [] :=
    if_pos homits
  have hasks (o : CompileOptions) :
      ({ o with target, libraryLayout } : CompileOptions).asksExistence = o.asksExistence := rfl
  have hload := Loading.carries_load hasks place options.target target depth path
  rw [demandAll, demandAll, hlibrary, hlibrary']
  exact .bind (.pure []) fun _ ↦ .bind (.bind hload fun found ↦ .pure _) fun missing ↦ .pure _

/-- Without the default library, another target leads to the same questions, whatever the answers,
and to the same program for that target. -/
theorem load_retarget (place : Surroundings) (depth : Nat) (root : String) :
    load place depth root (.start { options with target, libraryLayout }) =
      (Except.map fun r ↦ (r.1.retarget target,
        r.2.mapOptions fun o ↦ { o with target, libraryLayout })) <$>
          load place depth root (.start options) := by
  have hdemand := carries_demandAll homits target libraryLayout place depth (rootPath place root)
    ⟨.start options, .empty, []⟩
  rw [load_eq, load_eq, ← Dialogue.bind_eq, ← Dialogue.bind_eq, map_bind]
  refine (congrArg (· >>= _) hdemand).trans ?_
  rw [bind_map_left]
  apply bind_congr
  intro r
  cases r with
  | error halt => rfl
  | ok r => simp [Except.map, Progress.retarget, Host.mapOptions, retarget, Host.start]

end Load

section Findings

variable (p : Program) (target : LanguageTarget)

@[simp] theorem paths_retarget : (p.retarget target).paths = p.paths := by
  rw [paths, retarget, List.map_map]
  rfl

theorem modules_retarget :
    (p.retarget target).modules = p.modules.map (LoadedFile.retarget target) := by
  rw [modules, retarget, List.filter_map]
  rfl

theorem syntaxDiagnostics_retarget :
    (p.retarget target).syntaxDiagnostics = p.syntaxDiagnostics := by
  rw [syntaxDiagnostics, retarget, List.flatMap_map]
  rfl

theorem globals_retarget : (p.retarget target).globals = p.globals := by
  rw [globals, retarget, List.filter_map, List.flatMap_map]
  rfl

theorem semanticDiagnostics_retarget :
    (p.retarget target).semanticDiagnostics = p.semanticDiagnostics := by
  rw [semanticDiagnostics, globals_retarget, retarget, List.flatMap_map]
  rfl

/-- What would be written twice does not depend on what is written. -/
theorem diagnostics_emitFiles_retarget (canonicalName : String → String)
    (render render' : LoadedFile → String) (taken : List String) (fs : List LoadedFile) :
    (emitFiles canonicalName render' taken (fs.map (LoadedFile.retarget target))).diagnostics =
      (emitFiles canonicalName render taken fs).diagnostics := by
  induction fs generalizing taken with
  | nil => rfl
  | cons f fs ih =>
      have hpath : (f.retarget target).source.path = f.source.path := rfl
      rw [List.map_cons, emitFiles, emitFiles, hpath]
      dsimp only
      split
      · exact congrArg (overwritten (outputPath f.source.path) :: ·) (ih taken)
      · exact ih _

/-- The same is found about a program for all targets. -/
theorem findings_retarget (options : CompileOptions) (libraryLayout : LibraryLayout)
    (undecodable : List Diagnostic) :
    (p.retarget target).findings { options with target, libraryLayout } undecodable =
      p.findings options undecodable := by
  have hemission := diagnostics_emitFiles_retarget target Surroundings.plain.canonicalName
    (fun f ↦ Language.emit p.target options.newLine.text f.tree.statements)
    (fun f ↦ Language.emit target options.newLine.text f.tree.statements) [] p.modules
  rw [← modules_retarget] at hemission
  rw [findings, findings, syntaxDiagnostics_retarget, semanticDiagnostics_retarget]
  exact congrArg (Findings.mk undecodable p.syntaxDiagnostics p.globalDiagnostics
    p.semanticDiagnostics) hemission

/-- The statements that are emitted. -/
def emitted (p : Program) : List Stmt :=
  p.modules.flatMap fun f ↦ f.tree.statements

theorem output_retarget (options : CompileOptions) (libraryLayout : LibraryLayout) :
    (p.retarget target).output { options with target, libraryLayout } =
      { p.output options with
        text := Language.emit target options.newLine.text p.emitted } := by
  have htext := join_emit target options.newLine.text
    (fun f : LoadedFile ↦ f.tree.statements) p.modules
  rw [output, modules_retarget, paths_retarget, List.map_map, List.map_map, emitted, ← htext]
  rfl

variable {p} {options : CompileOptions} {undecodable : List Diagnostic}

theorem bridged_retarget_of_clean (h : (p.findings options undecodable).Clean)
    (libraryLayout : LibraryLayout) (root : String) :
    ((p.retarget target).conclusion { options with target, libraryLayout } undecodable).bridged
        root =
      ⟨.ok { p.output options with
        text := Language.emit target options.newLine.text p.emitted }, []⟩ := by
  rw [← findings_retarget p target options libraryLayout] at h
  rw [bridged_conclusion_of_clean _ _ h, output_retarget]

theorem bridged_retarget_of_not_clean (h : ¬ (p.findings options undecodable).Clean)
    (libraryLayout : LibraryLayout) (root : String) :
    ((p.retarget target).conclusion { options with target, libraryLayout } undecodable).bridged
        root =
      let shown := (p.findings options undecodable).shown options.stages
      ⟨.error (.compilationFailed root shown), shown⟩ := by
  rw [← findings_retarget p target options libraryLayout] at h ⊢
  exact bridged_conclusion_of_not_clean _ _ h root

end Findings

end Program

/-! ## Compiles side by side -/

section Compile

variable {options : CompileOptions} (homits : options.omitsDefaultLibrary = true)
include homits

/-- Without the default library, what a compile asks does not depend on the target. -/
theorem requests_compile_retarget (files : String → Option Bytes) (target : LanguageTarget)
    (libraryLayout : LibraryLayout) (depth : Nat) (root : String) :
    (compile { options with target, libraryLayout } depth root).requests files =
      (compile options depth root).requests files := by
  rw [requests_compile, requests_compile, Program.load_retarget homits, Dialogue.requests_map]

/-- Without the default library, all targets lead to one program but for the target. -/
theorem run_compile_retarget {files : String → Option Bytes} {depth : Nat} {root : String}
    {compiled : Compiled} (hrun : (compile options depth root).run files = .ok compiled) :
    ∃ (program : Program) (host : Host), program.root = root ∧
      (Program.load .plain depth root (.start options)).run files = .ok (program, host) ∧
      ∀ target libraryLayout,
        (compile { options with target, libraryLayout } depth root).run files =
          .ok ((program.retarget target).conclusion { options with target, libraryLayout }
            host.diagnostics) := by
  obtain ⟨t, host, -, ha, hload, -⟩ := walk_of_run_compile hrun
  refine ⟨.ofTrail files options root t, host, rfl, hload, fun target libraryLayout ↦ ?_⟩
  let retargeted : Host := host.mapOptions fun o ↦ { o with target, libraryLayout }
  have hretargeted :
      (Program.load .plain depth root (.start { options with target, libraryLayout })).run files =
        .ok ((Program.ofTrail files options root t).retarget target, retargeted) := by
    rw [Program.load_retarget homits, Dialogue.run_map, hload]
    rfl
  have hoptions : retargeted.options = { options with target, libraryLayout } := by
    show { host.options with target, libraryLayout } = _
    rw [ha.options]
    rfl
  have houtput : retargeted.output = .empty := ha.output
  exact (run_compile_of_load hretargeted rfl hoptions houtput :)

/-- Without the default library, compiles for all targets ask the same and fail with the same
diagnostics, or they emit the same files.  The texts for targets without block scoping are what is
emitted with it, with `var` in place of the keyword of each declaration. -/
theorem compileOver_targets {files : Table Bytes} (hreadable : Loading.Readable files.get?)
    {depth : Nat} (hdepth : files.size < depth) (root : String) :
    ∃ (program : Program) (host : Host) (asked : List Request)
      (compiled : LanguageTarget → BridgedCompile),
      (Program.load .plain depth root (.start options)).run files.get? = .ok (program, host) ∧
      (∀ target libraryLayout,
        compileOver { options with target, libraryLayout } depth root (⟨files, none, []⟩ : Shelf) =
          (.ok (compiled target), ⟨files, none, asked⟩)) ∧
      ((∃ ds, ds ≠ [] ∧ ∀ target, compiled target = ⟨.error (.compilationFailed root ds), ds⟩) ∨
        ∃ text : LanguageTarget → String,
          (∀ target, compiled target = ⟨.ok ⟨root, text target,
            program.modules.map fun f ↦ outputPath f.source.path, program.paths⟩, []⟩) ∧
          text .es2015 = linesText options.newLine.text
            (program.emitted.flatMap (Stmt.emitLines .es2015)) ∧
          text .es5 = linesText options.newLine.text
            (program.emitted.flatMap Stmt.loweredLines) ∧
          text .es3 = text .es5) ∧
      ∀ s ∈ program.emitted, ∀ keyword, s.blockKeyword? = some keyword → ∃ line lines,
        s.emitLines .es2015 = (keyword.toList ++ ' ' :: line) :: lines ∧
        s.loweredLines = ("var".toList ++ ' ' :: line) :: lines := by
  obtain ⟨compiled, hrun⟩ := run_compile hreadable hdepth options root
  obtain ⟨program, host, rfl, hload, htargets⟩ := run_compile_retarget homits hrun
  have hover (target : LanguageTarget) (libraryLayout : LibraryLayout) :=
    compileOver_shelf (htargets target libraryLayout)
  simp only [requests_compile_retarget homits] at hover
  have hkeywords : ∀ s ∈ program.emitted, ∀ keyword, s.blockKeyword? = some keyword →
      ∃ line lines, s.emitLines .es2015 = (keyword.toList ++ ' ' :: line) :: lines ∧
        s.loweredLines = ("var".toList ++ ' ' :: line) :: lines := by
    intro s _ keyword hkeyword
    obtain ⟨line, lines, hlines, -⟩ := Stmt.exists_emitLines_of_blockKeyword hkeyword
    exact ⟨line, lines, hlines, Stmt.loweredLines_of_blockKeyword hkeyword hlines⟩
  let asked := ((compile options depth program.root).requests files.get?).reverse
  by_cases hclean : (program.findings options host.diagnostics).Clean
  · let text (target : LanguageTarget) : String :=
      Language.emit target options.newLine.text program.emitted
    refine ⟨program, host, asked, fun target ↦ ⟨.ok { program.output options with
      text := text target }, []⟩, hload, fun target libraryLayout ↦ ?_,
      .inr ⟨text, fun target ↦ rfl, rfl, emit_eq_loweredLines rfl _ _, ?_⟩, hkeywords⟩
    · rw [hover, Program.bridged_retarget_of_clean target hclean]
    · exact (emit_eq_loweredLines rfl _ _).trans (emit_eq_loweredLines rfl _ _).symm
  · let shown := (program.findings options host.diagnostics).shown options.stages
    have hshown : shown ≠ [] := mt (Findings.shown_eq_nil_iff _).mp hclean
    refine ⟨program, host, asked, fun target ↦ ⟨.error (.compilationFailed program.root shown),
      shown⟩, hload, fun target libraryLayout ↦ ?_, .inl ⟨shown, hshown, fun target ↦ rfl⟩,
      hkeywords⟩
    rw [hover, Program.bridged_retarget_of_not_clean target hclean]

end Compile

/-- A file that imports one, both with declarations of their own. -/
def declaring : Table Bytes :=
  .ofList [("a.ts", bytesOf "import b from './b'\nexport const c = b"),
    ("b.ts", bytesOf "let d = 1\nd += 2")]

/-- The text of an output, if there is one. -/
def outputText? (r : Except Halt BridgedCompile × Shelf) : Option String :=
  r.1.toOption.bind fun c ↦ c.result.toOption.map CompileOutput.text

theorem compileOver_targets_declaring :
    Loading.Readable declaring.get? ∧ declaring.size < 3 ∧
      ∃ (text : LanguageTarget → String) (written sources : List String) (asked : List Request),
        (∀ target libraryLayout,
          compileOver { target, libraryLayout, omitsDefaultLibrary := true } 3 "a.ts"
            (⟨declaring, none, []⟩ : Shelf) =
              (.ok ⟨.ok ⟨"a.ts", text target, written, sources⟩, []⟩,
                ⟨declaring, none, asked⟩)) ∧
        text .es2015 =
          "let d = 1;\nd += 2;\nvar b = require(\"./b\");\nconst c = b;\nexports.c = c;\n" ∧
        text .es5 =
          "var d = 1;\nd += 2;\nvar b = require(\"./b\");\nvar c = b;\nexports.c = c;\n" ∧
        text .es3 = text .es5 := by
  have hreadable : Loading.Readable declaring.get? := .of_entries (by decide +kernel)
  have hdepth : declaring.size < 3 := by decide
  let options : CompileOptions := { omitsDefaultLibrary := true }
  have hes2015 : outputText? (compileOver { options with target := .es2015 } 3 "a.ts"
      (⟨declaring, none, []⟩ : Shelf)) =
        some "let d = 1;\nd += 2;\nvar b = require(\"./b\");\nconst c = b;\nexports.c = c;\n" := by
    decide +kernel
  have hes5 : outputText? (compileOver { options with target := .es5 } 3 "a.ts"
      (⟨declaring, none, []⟩ : Shelf)) =
        some "var d = 1;\nd += 2;\nvar b = require(\"./b\");\nvar c = b;\nexports.c = c;\n" := by
    decide +kernel
  have homits : options.omitsDefaultLibrary = true := rfl
  obtain ⟨program, host, asked, compiled, -, hover, hcompiled, -⟩ :=
    compileOver_targets homits hreadable hdepth "a.ts"
  rw [hover .es2015 .current] at hes2015
  rw [hover .es5 .current] at hes5
  rcases hcompiled with ⟨ds, -, hfailed⟩ | ⟨text, hcompiled, -, -, hes3⟩
  · rw [hfailed] at hes5
    cases hes5
  · rw [hcompiled] at hes2015 hes5
    simp only [hcompiled] at hover
    exact ⟨hreadable, hdepth, text, _, _, asked, hover, Option.some.inj hes2015,
      Option.some.inj hes5, hes3⟩

end PipedCompiler.Compile
