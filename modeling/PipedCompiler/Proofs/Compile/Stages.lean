import PipedCompiler.Proofs.Compile.Carrying
import PipedCompiler.Proofs.Compile.Verdict

/-!
# The order of stages

When types are looked at makes no difference to what a compile asks, nor to whether it has an output
and to which one.  Where it has none, a compile with unified stages begins with what it shows when
they are separate.
-/

namespace PipedCompiler.Compile

open PipedCompiler.Text PipedCompiler.Bridge PipedCompiler.Language

/-! ## Options that loading does not look at -/

/-- Whether a change of options leaves alone all that loading depends on. -/
structure LoadsAlike (g : CompileOptions → CompileOptions) : Prop where
  target : ∀ o, (g o).target = o.target
  libraryPath : ∀ o, (g o).libraryPath = o.libraryPath
  omitsDefaultLibrary : ∀ o, (g o).omitsDefaultLibrary = o.omitsDefaultLibrary
  asksExistence : ∀ o, (g o).asksExistence = o.asksExistence

/-- Loading does not depend on the order of stages. -/
theorem loadsAlike_stages (stages : Stages) : LoadsAlike fun o ↦ { o with stages } where
  target _ := rfl
  libraryPath _ := rfl
  omitsDefaultLibrary _ := rfl
  asksExistence _ := rfl

namespace Host

variable {g : CompileOptions → CompileOptions}

/-- The host once its options have changed. -/
def mapOptions (g : CompileOptions → CompileOptions) (h : Host) : Host :=
  { h with options := g h.options }

/-- Whether what is asked of a host goes the same way once its options have changed. -/
def Blind {α : Type} (g : CompileOptions → CompileOptions) (action : Hosted α) : Prop :=
  ∀ h, action.run (h.mapOptions g) = (fun r ↦ (r.1, r.2.mapOptions g)) <$> action.run h

theorem blind_load (path : String) : Blind g (load path) := by
  intro h
  cases hknown : h.known.get? path with
  | some text =>
      have hknown' : (h.mapOptions g).known.get? path = some text := hknown
      rw [load_known hknown, load_known hknown']
      rfl
  | none =>
      have hnew : (h.mapOptions g).known.get? path = none := hknown
      rw [load_new hknown, load_new hnew]
      rfl

theorem blind_sourceFile (path : String) (target : LanguageTarget) :
    Blind g (sourceFile path target) := by
  intro h
  rw [sourceFile]
  simp only [StateT.run_bind, blind_load path h, StateT.run_pure]
  rw [map_bind, bind_map_left]
  rfl

theorem blind_exists (hasks : ∀ o, (g o).asksExistence = o.asksExistence) (path : String) :
    Blind g (exists? path) := by
  intro h
  cases hknown : h.known.get? path with
  | some text =>
      have hknown' : (h.mapOptions g).known.get? path = some text := hknown
      rw [exists_known hknown, exists_known hknown']
      rfl
  | none =>
      have hnew : (h.mapOptions g).known.get? path = none := hknown
      rw [exists_new hknown, exists_new hnew]
      have hsame : (h.mapOptions g).options.asksExistence = h.options.asksExistence :=
        hasks h.options
      rw [hsame]
      split
      · rw [Dialogue.map_presence]
        congr
        funext found
        cases found with
        | false => rfl
        | true => rfl
      · rfl

end Host

/-- Loading that has come as far with other options. -/
def Progress.mapOptions (g : CompileOptions → CompileOptions) (p : Progress) : Progress :=
  { p with host := p.host.mapOptions g }

namespace Loading

variable {α γ : Type} {g : CompileOptions → CompileOptions}

/-- Whether a step of loading goes the same way once the options of the host have changed. -/
def Blind (g : CompileOptions → CompileOptions) (m : Loading α) : Prop :=
  ∀ p, (m.run (p.mapOptions g)).run =
    (Except.map fun r ↦ (r.1, r.2.mapOptions g)) <$> (m.run p).run

namespace Blind

theorem carries_iff {m : Loading α} : Carries (Progress.mapOptions g) id m m ↔ Blind g m :=
  Iff.rfl

theorem bind {m : Loading α} {f : α → Loading γ} (hm : Blind g m) (hf : ∀ a, Blind g (f a)) :
    Blind g (m >>= f) :=
  carries_iff.mp (.bind (carries_iff.mpr hm) fun a ↦ carries_iff.mpr (hf a))

theorem pure (a : α) : Blind g (pure a) :=
  carries_iff.mp (.pure a)

theorem throw (halt : Halt) : Blind g (throw halt : Loading α) :=
  carries_iff.mp (.throw halt)

theorem get {f : Progress → Loading γ} (hsame : ∀ p, f (p.mapOptions g) = f p)
    (hf : ∀ p, Blind g (f p)) : Blind g (get >>= f) :=
  carries_iff.mp (.get fun p ↦ (hsame p).symm ▸ carries_iff.mpr (hf p))

theorem modify {f : Progress → Progress} (hf : ∀ p, f (p.mapOptions g) = (f p).mapOptions g) :
    Blind g (modify f) :=
  carries_iff.mp (.modify hf)

theorem hosted {action : Hosted α} (h : Host.Blind g action) : Blind g (hosted action) :=
  carries_iff.mp (.hosted (fun _ _ ↦ rfl) h)

theorem resolve (hg : LoadsAlike g) (importer specifier : String) :
    Blind g (resolve importer specifier) :=
  resolve_of_exists (P := Blind g) pure bind
    (fun path ↦ hosted (Host.blind_exists hg.asksExistence path)) importer specifier

theorem closed (hg : LoadsAlike g) : Closed (Blind g) (fun _ ↦ True) fun _ _ ↦ True where
  pure := pure
  throw := throw
  bind := bind
  look hsame hf := get (fun p ↦ hsame (p.mapOptions g) p rfl) hf
  note _ _ := modify fun _ ↦ rfl
  keep _ := modify fun _ ↦ rfl
  sourceFile target _ hf := bind (hosted (Host.blind_sourceFile _ target)) fun source ↦
    hf source fun _ _ _ _ _ _ ↦ trivial
  resolve _ hf := bind (resolve hg _ _) fun target ↦ hf target fun _ _ ↦ trivial

end Blind

end Loading

namespace Program

variable {g : CompileOptions → CompileOptions}

theorem demandAll_mapOptions (hg : LoadsAlike g) (place : Surroundings) (options : CompileOptions)
    (depth : Nat) (path : String) :
    demandAll place (g options) depth path = demandAll place options depth path := by
  simp only [demandAll, demandLibrary, hg.target, hg.libraryPath, hg.omitsDefaultLibrary]

/-- A change of options that loading does not depend on leaves both the program and the questions as
they are, whatever the answers. -/
theorem load_mapOptions (hg : LoadsAlike g) (place : Surroundings) (depth : Nat) (root : String)
    (host : Host) :
    load place depth root (host.mapOptions g) =
      (Except.map fun r ↦ (r.1, r.2.mapOptions g)) <$> load place depth root host := by
  have hblind : Loading.Blind g (demandAll place host.options depth (rootPath place root)) :=
    (Loading.Blind.closed hg).demandAll place depth (fun _ ↦ trivial) trivial
  have hdemand : demandAll place (host.mapOptions g).options depth (rootPath place root) =
      demandAll place host.options depth (rootPath place root) :=
    demandAll_mapOptions hg place host.options depth _
  rw [load_eq, load_eq, hdemand, ← Dialogue.bind_eq, ← Dialogue.bind_eq, map_bind]
  refine (congrArg (· >>= _) (hblind ⟨host, .empty, []⟩)).trans ?_
  rw [bind_map_left]
  apply bind_congr
  intro r
  cases r with
  | error halt => rfl
  | ok r => simp [Except.map, Progress.mapOptions, Host.mapOptions, hg.target]

/-- A program is loaded in the same way whatever the order of stages. -/
theorem load_stages (options : CompileOptions) (stages : Stages) (place : Surroundings)
    (depth : Nat) (root : String) :
    load place depth root (.start { options with stages }) =
      (Except.map fun r ↦ (r.1, r.2.mapOptions fun o ↦ { o with stages })) <$>
        load place depth root (.start options) :=
  load_mapOptions (loadsAlike_stages stages) place depth root (.start options)

end Program

/-! ## Separate and unified stages -/

/-- What a compile asks does not depend on the order of stages. -/
theorem requests_compile_stages (files : String → Option Bytes) (options : CompileOptions)
    (stages : Stages) (depth : Nat) (root : String) :
    (compile { options with stages } depth root).requests files =
      (compile options depth root).requests files := by
  rw [requests_compile, requests_compile, Program.load_stages, Dialogue.requests_map]

/-- All orders of stages lead to one program, about which the same is found. -/
theorem run_compile_stages {files : String → Option Bytes} {options : CompileOptions}
    {depth : Nat} {root : String} {compiled : Compiled}
    (hrun : (compile options depth root).run files = .ok compiled) :
    ∃ (program : Program) (undecodable : List Diagnostic), program.root = root ∧
      ∀ stages, (compile { options with stages } depth root).run files =
        .ok (program.conclusion { options with stages } undecodable) := by
  obtain ⟨t, host, -, ha, hload, -⟩ := walk_of_run_compile hrun
  refine ⟨.ofTrail files options root t, host.diagnostics, rfl, fun stages ↦ ?_⟩
  let restaged : Host := host.mapOptions fun o ↦ { o with stages }
  have hrestaged : (Program.load .plain depth root (.start { options with stages })).run files =
      .ok (.ofTrail files options root t, restaged) := by
    rw [Program.load_stages, Dialogue.run_map, hload]
    rfl
  have hoptions : restaged.options = { options with stages } := by
    show { host.options with stages } = _
    rw [ha.options]
    rfl
  have houtput : restaged.output = .empty := ha.output
  exact (run_compile_of_load hrestaged rfl hoptions houtput :)

namespace Findings

/-- What is shown with separate stages is what is shown first with unified ones. -/
theorem shown_prefix (f : Findings) : f.shown .separate <+: f.shown .unified := by
  rw [shown, shown]
  split
  · exact List.prefix_refl _
  · split
    · exact List.prefix_append _ _
    · next htypes =>
      rw [Decidable.not_not.mp htypes]
      exact List.prefix_refl _

end Findings

namespace Program

variable (p : Program) (options : CompileOptions) {undecodable : List Diagnostic}

theorem bridged_conclusion_of_clean (h : (p.findings options undecodable).Clean) (root : String) :
    (p.conclusion options undecodable).bridged root = ⟨.ok (p.output options), []⟩ := by
  rw [conclusion, if_pos (Findings.shown_eq_nil_iff _ |>.mpr h)]
  rfl

theorem bridged_conclusion_of_not_clean (h : ¬ (p.findings options undecodable).Clean)
    (root : String) :
    (p.conclusion options undecodable).bridged root =
      let shown := (p.findings options undecodable).shown options.stages
      ⟨.error (.compilationFailed root shown), shown⟩ := by
  rw [conclusion, if_neg (mt (Findings.shown_eq_nil_iff _).mp h)]
  rfl

end Program

/-- A compile asks the same and has the same output, or none, whether its stages are separate or
unified.  If it has none, it shows something, and what it shows with separate stages is what it
shows first with unified ones. -/
theorem compileOver_stages {files : Table Bytes} (hreadable : Loading.Readable files.get?)
    (options : CompileOptions) {depth : Nat} (hdepth : files.size < depth) (root : String) :
    ∃ (separate unified : BridgedCompile) (asked : List Request),
      compileOver { options with stages := .separate } depth root (⟨files, none, []⟩ : Shelf) =
        (.ok separate, ⟨files, none, asked⟩) ∧
      compileOver { options with stages := .unified } depth root (⟨files, none, []⟩ : Shelf) =
        (.ok unified, ⟨files, none, asked⟩) ∧
      ((∃ output, separate = ⟨.ok output, []⟩ ∧ unified = ⟨.ok output, []⟩) ∨
        ∃ ds ds', separate = ⟨.error (.compilationFailed root ds), ds⟩ ∧
          unified = ⟨.error (.compilationFailed root ds'), ds'⟩ ∧ ds ≠ [] ∧ ds <+: ds') := by
  obtain ⟨compiled, hrun⟩ := run_compile hreadable hdepth options root
  obtain ⟨program, undecodable, rfl, hstages⟩ := run_compile_stages hrun
  have hover (stages : Stages) := compileOver_shelf (hstages stages)
  simp only [requests_compile_stages] at hover
  refine ⟨_, _, _, hover .separate, hover .unified, ?_⟩
  -- Neither what there is to find nor the output depends on the order of stages.
  by_cases hclean : (program.findings options undecodable).Clean
  · exact .inl ⟨program.output options,
      program.bridged_conclusion_of_clean { options with stages := .separate } hclean _,
      program.bridged_conclusion_of_clean { options with stages := .unified } hclean _⟩
  · refine .inr ⟨_, _,
      program.bridged_conclusion_of_not_clean { options with stages := .separate } hclean _,
      program.bridged_conclusion_of_not_clean { options with stages := .unified } hclean _,
      ?_, Findings.shown_prefix _⟩
    exact mt (Findings.shown_eq_nil_iff _).mp hclean

/-- A file that imports one that is not there, and one that would be emitted to the same place. -/
def overlapping : Table Bytes :=
  .ofList [("a.ts", bytesOf "import b from './a.src'; import c from './c'"),
    ("a.src", bytesOf "let q = 1")]

theorem compileOver_stages_overlapping :
    Loading.Readable overlapping.get? ∧ overlapping.size < 3 ∧
      ∃ (separate unified : BridgedCompile) (asked : List Request),
        compileOver { omitsDefaultLibrary := true, stages := .separate } 3 "a.ts"
          (⟨overlapping, none, []⟩ : Shelf) = (.ok separate, ⟨overlapping, none, asked⟩) ∧
        compileOver { omitsDefaultLibrary := true, stages := .unified } 3 "a.ts"
          (⟨overlapping, none, []⟩ : Shelf) = (.ok unified, ⟨overlapping, none, asked⟩) ∧
        ((∃ output, separate = ⟨.ok output, []⟩ ∧ unified = ⟨.ok output, []⟩) ∨
          ∃ ds ds', separate = ⟨.error (.compilationFailed "a.ts" ds), ds⟩ ∧
            unified = ⟨.error (.compilationFailed "a.ts" ds'), ds'⟩ ∧ ds ≠ [] ∧ ds <+: ds') := by
  have hreadable : Loading.Readable overlapping.get? := .of_entries (by decide +kernel)
  have hdepth : overlapping.size < 3 := by decide
  exact ⟨hreadable, hdepth,
    compileOver_stages hreadable { omitsDefaultLibrary := true } hdepth "a.ts"⟩

/-- What is emitted twice is only shown when stages are unified. -/
example :
    ((compile { omitsDefaultLibrary := true, stages := .separate } 3 "a.ts").run
        overlapping.get?).toOption.map (·.reported.map Diagnostic.code) = some ["TS2307"] ∧
      ((compile { omitsDefaultLibrary := true, stages := .unified } 3 "a.ts").run
        overlapping.get?).toOption.map (·.reported.map Diagnostic.code) =
          some ["TS2307", "TS5056"] := by
  decide +kernel

end PipedCompiler.Compile
