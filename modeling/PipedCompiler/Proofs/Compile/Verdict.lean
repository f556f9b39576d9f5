import PipedCompiler.Proofs.Compile.Program
import PipedCompiler.Proofs.Compile.Requests

/-!
# Verdicts

A compile has an output if there is nothing to say about its program, and then shows nothing.
Otherwise it shows what the first stage with something to say has found, and nothing that a later
one would find.
-/

namespace PipedCompiler.Compile

open PipedCompiler.Text PipedCompiler.Bridge PipedCompiler.Language

/-! ## What there is to find -/

/-- What there is to say about a program, stage by stage. -/
structure Findings where
  /-- The files that are not texts, in the order of loading. -/
  undecodable : List Diagnostic
  syntactic : List Diagnostic
  global : List Diagnostic
  semantic : List Diagnostic
  emission : List Diagnostic

namespace Findings

variable (f : Findings)

/-- Whether there is nothing to find. -/
structure Clean : Prop where
  undecodable : f.undecodable = []
  syntactic : f.syntactic = []
  global : f.global = []
  semantic : f.semantic = []
  emission : f.emission = []

/-- What is found while loading. -/
def loading : List Diagnostic := f.undecodable ++ f.syntactic

/-- What is found about types, which are not looked at in a program that lacks files. -/
def types : List Diagnostic :=
  if f.global = [] then f.semantic else f.global

/-- What a compile shows. -/
def shown : Stages → List Diagnostic
  | .separate =>
    if f.loading ≠ [] then f.loading else if f.types ≠ [] then f.types else f.emission
  | .unified => if f.loading ≠ [] then f.loading else f.types ++ f.emission

variable {f}

theorem types_eq_nil_iff : f.types = [] ↔ f.global = [] ∧ f.semantic = [] := by
  rw [types]
  split
  · next hglobal => simp [hglobal]
  · next hglobal => simp [hglobal]

/-- Something is shown just if there is something to find. -/
theorem shown_eq_nil_iff (stages : Stages) : f.shown stages = [] ↔ f.Clean := by
  have hstages : f.shown stages = [] ↔ f.loading = [] ∧ f.types = [] ∧ f.emission = [] := by
    by_cases hloading : f.loading = []
    · cases stages with
      | unified => simp [shown, hloading]
      | separate =>
          by_cases htypes : f.types = []
          · simp [shown, hloading, htypes]
          · simp [shown, hloading, htypes]
    · cases stages with
      | unified => simp [shown, hloading]
      | separate => simp [shown, hloading]
  rw [hstages, loading, List.append_eq_nil_iff, types_eq_nil_iff]
  constructor
  · rintro ⟨⟨hundecodable, hsyntactic⟩, ⟨hglobal, hsemantic⟩, hemission⟩
    exact ⟨hundecodable, hsyntactic, hglobal, hsemantic, hemission⟩
  · rintro ⟨hundecodable, hsyntactic, hglobal, hsemantic, hemission⟩
    exact ⟨⟨hundecodable, hsyntactic⟩, ⟨hglobal, hsemantic⟩, hemission⟩

end Findings

/-! ## What is written -/

section Write

variable (h : Host) (writes : List (String × String))

/-- Writing one file after the other puts their texts together. -/
theorem Host.output_writeAll :
    (h.writeAll writes).output =
      ⟨h.output.text ++ String.join (writes.map Prod.snd),
        h.output.files ++ writes.map Prod.fst⟩ := by
  induction writes generalizing h with
  | nil => simp [writeAll]
  | cons w writes ih =>
      rw [writeAll, List.foldl_cons, ← writeAll, ih]
      simp [Host.write, Output.write, String.append_assoc]

theorem Host.diagnostics_writeAll : (h.writeAll writes).diagnostics = h.diagnostics := by
  induction writes generalizing h with
  | nil => rfl
  | cons w writes ih => exact ih _

end Write

namespace Program

/-- Where no file would be written twice, each of them is written. -/
theorem writes_emitFiles {canonicalName : String → String} {render : LoadedFile → String}
    {taken : List String} {fs : List LoadedFile}
    (h : (emitFiles canonicalName render taken fs).diagnostics = []) :
    (emitFiles canonicalName render taken fs).writes =
      fs.map fun f ↦ (outputPath f.source.path, render f) := by
  induction fs generalizing taken with
  | nil => rfl
  | cons f fs ih =>
      rw [emitFiles] at h ⊢
      dsimp only at h ⊢
      split at h
      · cases h
      · next hnew =>
        rw [if_neg hnew, List.map_cons, ih h]

/-- The files that are emitted. -/
def modules (p : Program) : List LoadedFile :=
  p.files.filter (!·.source.isDeclaration)

/-- The output of a program about which there is nothing to say. -/
def output (p : Program) (options : CompileOptions) : CompileOutput where
  root := p.root
  text := String.join <| p.modules.map fun f ↦
    Language.emit p.target options.newLine.text f.tree.statements
  files := p.modules.map fun f ↦ outputPath f.source.path
  sources := p.paths

/-- What there is to say about a program that has been loaded while `undecodable` was said. -/
def findings (p : Program) (options : CompileOptions) (undecodable : List Diagnostic) :
    Findings where
  undecodable
  syntactic := p.syntaxDiagnostics
  global := p.globalDiagnostics
  semantic := p.semanticDiagnostics
  emission := (p.emit Surroundings.plain.canonicalName options.newLine.text).diagnostics

theorem types_findings (p : Program) (options : CompileOptions) (undecodable : List Diagnostic) :
    (p.findings options undecodable).types = p.typeDiagnostics := by
  rw [typeDiagnostics, Findings.types, findings]
  cases p.globalDiagnostics with
  | nil => rfl
  | cons d ds => rfl

/-- Where nothing is said about emitting, what is written is the output. -/
theorem output_of_writes (p : Program) (options : CompileOptions) (host : Host)
    (houtput : host.output = .empty)
    (h : (p.emit Surroundings.plain.canonicalName options.newLine.text).diagnostics = []) :
    let written := host.writeAll
      (p.emit Surroundings.plain.canonicalName options.newLine.text).writes
    (⟨p.root, written.output.text, written.output.files, p.paths⟩ : CompileOutput) =
      p.output options := by
  intro written
  rw [Host.output_writeAll, emit, writes_emitFiles h, houtput]
  simp [output, modules, Output.empty, Function.comp_def]

/-- What a program comes to that has been loaded while `undecodable` was said: its output, or what
there is to say about it. -/
def conclusion (p : Program) (options : CompileOptions) (undecodable : List Diagnostic) :
    Compiled :=
  let shown := (p.findings options undecodable).shown options.stages
  if shown = [] then ⟨.ok (p.output options), []⟩ else .failed shown

theorem compile_eq (p : Program) {host : Host} (houtput : host.output = .empty) :
    p.compile p.root host = p.conclusion host.options host.diagnostics := by
  have hloading : host.diagnostics ++ p.syntaxDiagnostics =
    (p.findings host.options host.diagnostics).loading := rfl
  have htypes := (p.types_findings host.options host.diagnostics).symm
  have hemission : (p.emit Surroundings.plain.canonicalName host.options.newLine.text).diagnostics =
    (p.findings host.options host.diagnostics).emission := rfl
  have hwritten (h : (p.findings host.options host.diagnostics).emission = []) :=
    p.output_of_writes host.options { host with diagnostics := [] } houtput h
  simp only [compile, conclusion, Host.takeDiagnostics, Host.diagnostics_writeAll, hloading, htypes,
    hemission]
  generalize p.findings host.options host.diagnostics = found at hwritten ⊢
  -- The cases are the stages in turn, each with something to say or with nothing.
  by_cases hl : found.loading = []
  · cases hstages : host.options.stages with
    | separate =>
        by_cases ht : found.types = []
        · by_cases he : found.emission = []
          · simp [Findings.shown, hl, ht, he, hwritten he]
          · simp [Findings.shown, hl, ht, he]
        · simp [Findings.shown, hl, ht]
    | unified =>
        by_cases hend : found.types ++ found.emission = []
        · have he := (List.append_eq_nil_iff.mp hend).2
          simp [Findings.shown, hl, hend, hwritten he]
        · simp [Findings.shown, hl, hend]
  · cases hstages : host.options.stages with
    | separate => simp [Findings.shown, hl]
    | unified => simp [Findings.shown, hl]

end Program

/-! ## Compiles -/

/-- Whether a compile comes to the output of a program, or shows what there is to say about it. -/
structure Verdict (options : CompileOptions) (p : Program) (found : Findings)
    (c : BridgedCompile) : Prop where
  /-- There is an output just if there is nothing to find. -/
  isOk_iff : (∃ output, c.result = .ok output) ↔ found.Clean
  ok : ∀ output, c.result = .ok output → output = p.output options ∧ c.reported = []
  /-- What is shown is what the compile fails with. -/
  failed : ∀ e, c.result = .error e →
    e = .compilationFailed p.root (found.shown options.stages) ∧
      c.reported = found.shown options.stages ∧ found.shown options.stages ≠ []

theorem Program.verdict_conclusion (p : Program) (options : CompileOptions)
    (undecodable : List Diagnostic) :
    Verdict options p (p.findings options undecodable)
      ((p.conclusion options undecodable).bridged p.root) := by
  have hclean := (p.findings options undecodable).shown_eq_nil_iff options.stages
  rw [conclusion]
  split
  · next hshown =>
    refine ⟨⟨fun _ ↦ hclean.mp hshown, fun _ ↦ ⟨_, rfl⟩⟩, ?_, nofun⟩
    rintro output ⟨⟩
    exact ⟨rfl, rfl⟩
  · next hshown =>
    refine ⟨⟨nofun, fun h ↦ absurd (hclean.mpr h) hshown⟩, nofun, ?_⟩
    rintro e ⟨⟩
    exact ⟨rfl, rfl, hshown⟩

/-- A compile comes to the conclusion about the program that it loads. -/
theorem run_compile_of_load {files : String → Option Bytes} {options : CompileOptions}
    {depth : Nat} {root : String} {program : Program} {host : Host}
    (hload : (Program.load .plain depth root (.start options)).run files = .ok (program, host))
    (hroot : program.root = root) (hoptions : host.options = options)
    (houtput : host.output = .empty) :
    (compile options depth root).run files =
      .ok (program.conclusion options host.diagnostics) := by
  have hcompile := program.compile_eq houtput
  rw [hoptions, hroot] at hcompile
  exact run_compile_eq_ok_iff.mpr ⟨program, host, hload, hcompile⟩

/-- A compile walks from the library and the root, and comes to the conclusion about the program
that the walk comes to. -/
theorem walk_of_run_compile {files : String → Option Bytes} {options : CompileOptions}
    {depth : Nat} {root : String} {compiled : Compiled}
    (hrun : (compile options depth root).run files = .ok compiled) :
    ∃ t host, Walk files options.target (starts options root) .start t ∧
      Abreast files (.start options) host t ∧
      (Program.load .plain depth root (.start options)).run files =
        .ok (.ofTrail files options root t, host) ∧
      compiled = (Program.ofTrail files options root t).conclusion options host.diagnostics := by
  obtain ⟨program, host, hload, rfl⟩ := run_compile_eq_ok_iff.mp hrun
  obtain ⟨t, hwalk, hprogram, ha⟩ := Program.walk_load (Host.truthful_start options) hload
  obtain rfl : program = .ofTrail files options root t := hprogram
  refine ⟨t, host, hwalk, ha, hload, ?_⟩
  have hcompile := (Program.ofTrail files options root t).compile_eq ha.output
  rw [ha.options] at hcompile
  exact hcompile

/-- What is said about files that are not texts while a root is compiled, in the order in which
they are asked for. -/
def undecodable (files : Table Bytes) (options : CompileOptions) (root : String) :
    List Diagnostic :=
  (questions files options root).filterMap (complaintAbout? files.get?)

theorem diagnostics_load {files : Table Bytes} {options : CompileOptions} {root : String}
    {program : Program} {host : Host}
    (hrun : (Program.load .plain (files.size + 1) root (.start options)).run files.get? =
      .ok (program, host)) :
    host.diagnostics = undecodable files options root := by
  obtain ⟨host', hsaid, hhost⟩ := (accounts_complaints files.get?).load_program .plain
    (files.size + 1) root (.start options)
  rw [hhost program host hrun, hsaid, undecodable, questions, requests_compile]
  rfl

/-- A compile over a source comes to the failure of the first question that fails; if none does, it
comes to the output of its program, or shows what there is to say about it. -/
theorem compileOver_verdict {files : Table Bytes} (hreadable : Loading.Readable files.get?)
    (options : CompileOptions) (root : String) :
    ∃ program : Program, program.root = root ∧
      (∀ depth, files.size < depth → ∃ host,
        (Program.load .plain depth root (.start options)).run files.get? = .ok (program, host)) ∧
      ∀ {β : Type} [Source β] {good : β → Prop} {depth : Nat} {b : β}, Honest files.get? good →
        files.size < depth → good b →
          (∀ e, Breaks (compile options depth root) b e →
            (compileOver options depth root b).1 = .ok ⟨.error (.bridge e), []⟩) ∧
          ((∀ e, ¬ Breaks (compile options depth root) b e) →
            ∃ c, (compileOver options depth root b).1 = .ok c ∧
              Verdict options program
                (program.findings options (undecodable files options root)) c) := by
  obtain ⟨compiled, hcompiled⟩ := exists_compiled hreadable options root
  obtain ⟨t, host, -, -, hload, rfl⟩ := walk_of_run_compile (hcompiled _ (Nat.lt_succ_self _)).1
  refine ⟨.ofTrail files.get? options root t, rfl, fun depth hdepth ↦ ⟨host, ?_⟩, ?_⟩
  · rw [← hload]
    exact (congrArg Prod.fst (Program.course_load (Nat.lt_succ_self _) hdepth .plain root
      (Host.truthful_start options))).symm
  · intro β _ good depth b hhonest hdepth hb
    refine ⟨fun e hbreaks ↦ compileOver_of_breaks hbreaks, fun hholds ↦ ?_⟩
    refine ⟨_, hhonest.compileOver hb hholds (hcompiled depth hdepth).1, ?_⟩
    rw [diagnostics_load hload]
    exact Program.verdict_conclusion _ options _

/-- A file with a variable that lacks its value, which imports one that is not a text. -/
def spoilt : Table Bytes :=
  .ofList [("a.ts", bytesOf "import b from './b'; const c"), ("b.ts", [0xff])]

theorem compileOver_verdict_spoilt :
    Loading.Readable spoilt.get? ∧ Honest spoilt.get? (fun s : Shelf ↦ s.files = spoilt) ∧
      spoilt.size < 3 ∧
      (∀ e, ¬ Breaks (compile {} 3 "a.ts") (⟨spoilt, none, []⟩ : Shelf) e) ∧
      Breaks (compile {} 3 "a.ts") (⟨spoilt, some .poisoned, []⟩ : Shelf) .poisoned ∧
      (undecodable spoilt {} "a.ts").length = 1 ∧
      ∃ program host c,
        (Program.load .plain 3 "a.ts" (.start {})).run spoilt.get? = .ok (program, host) ∧
        (compileOver {} 3 "a.ts" (⟨spoilt, none, []⟩ : Shelf)).1 = .ok c ∧
        Verdict {} program (program.findings {} (undecodable spoilt {} "a.ts")) c ∧
        (compileOver {} 3 "a.ts" (⟨spoilt, some .poisoned, []⟩ : Shelf)).1 =
          .ok ⟨.error (.bridge .poisoned), []⟩ := by
  have hreadable : Loading.Readable spoilt.get? := .of_entries (by decide +kernel)
  have hdepth : spoilt.size < 3 := by decide
  have hholds : ∀ e, ¬ Breaks (compile {} 3 "a.ts") (⟨spoilt, none, []⟩ : Shelf) e :=
    fun _ ↦ not_breaks_shelf rfl
  have hbreaks : Breaks (compile {} 3 "a.ts") (⟨spoilt, some .poisoned, []⟩ : Shelf) .poisoned :=
    breaks_shelf spoilt.get? (by decide +kernel) rfl
  have hsaid : (undecodable spoilt {} "a.ts").length = 1 := by decide +kernel
  obtain ⟨program, -, hload, hverdict⟩ := compileOver_verdict hreadable {} "a.ts"
  obtain ⟨host, hload⟩ := hload 3 hdepth
  obtain ⟨c, hover, hc⟩ := (hverdict (honest_shelf spoilt) hdepth rfl).2 hholds
  have hfailed := (hverdict (honest_shelf spoilt) hdepth rfl).1 .poisoned hbreaks
  exact ⟨hreadable, honest_shelf spoilt, hdepth, hholds, hbreaks, hsaid,
    program, host, c, hload, hover, hc, hfailed⟩

end PipedCompiler.Compile
