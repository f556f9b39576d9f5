import PipedCompiler.Proofs.Compile.Depth
import PipedCompiler.Proofs.Compile.Source
import PipedCompiler.Proofs.Compile.Walk

/-!
# The files of a program

A program consists of the files that imports lead to from the library and the root, each of them
once, and behind those that it imports as far as that is possible.
-/

namespace PipedCompiler.Compile

open PipedCompiler.Text PipedCompiler.Bridge PipedCompiler.Language

/-- Where the files of a program are looked for first: the library, unless there is to be none, and
the root. -/
def starts (options : CompileOptions) (root : String) : List String :=
  if options.omitsDefaultLibrary then [root] else [options.libraryPath, root]

namespace Program

variable {files : String → Option Bytes} {h₀ host : Host} {p p' : Progress}

/-- The program that a walk comes to. -/
def ofTrail (files : String → Option Bytes) (options : CompileOptions) (root : String)
    (t : Trail) : Program where
  root
  target := options.target
  files := t.files.reverse
  missing := (starts options root).filter fun path ↦ (files path).isNone

theorem walked_demand {target : LanguageTarget} {depth : Nat} {path : String}
    {missing : List String} (ha : Abreast files h₀ p.host p.trail)
    (hrun : Loading.outcome files (demand .plain target depth path) p = .ok (missing, p')) :
    missing = [path].filter (fun path ↦ (files path).isNone) ∧
      Walked files target h₀ [path] p p' := by
  obtain ⟨found, p₁, hload, hrun⟩ := Loading.outcome_bind_eq_ok.mp hrun
  obtain ⟨rfl, rfl⟩ := Prod.mk.inj (Except.ok.inj hrun)
  obtain ⟨rfl, hwalked⟩ := Loading.walked_load (.inl ha) hload
  refine ⟨?_, hwalked⟩
  cases hfile : files path with
  | none => simp [hfile]
  | some bs => simp [hfile]

theorem walked_demandAll {options : CompileOptions} {depth : Nat} {root : String}
    {missing : List String} (ha : Abreast files h₀ p.host p.trail)
    (hrun : Loading.outcome files (demandAll .plain options depth root) p = .ok (missing, p')) :
    missing = (starts options root).filter (fun path ↦ (files path).isNone) ∧
      Walked files options.target h₀ (starts options root) p p' := by
  obtain ⟨library, p₁, hlibrary, hrun⟩ := Loading.outcome_bind_eq_ok.mp hrun
  obtain ⟨main, p₂, hmain, hrun⟩ := Loading.outcome_bind_eq_ok.mp hrun
  obtain ⟨rfl, rfl⟩ := Prod.mk.inj (Except.ok.inj hrun)
  rw [demandLibrary] at hlibrary
  rw [starts]
  cases homits : options.omitsDefaultLibrary with
  | true =>
      rw [homits] at hlibrary
      obtain ⟨rfl, rfl⟩ := Prod.mk.inj (Except.ok.inj hlibrary)
      exact walked_demand ha hmain
  | false =>
      rw [homits] at hlibrary
      obtain ⟨rfl, hwalk₁, ha₁⟩ := walked_demand ha hlibrary
      obtain ⟨rfl, hwalk₂, ha₂⟩ := walked_demand ha₁ hmain
      refine ⟨?_, hwalk₁.append hwalk₂, ha₂⟩
      rw [← List.filter_append]
      rfl

/-- Loading a program is a walk from the library and the root. -/
theorem walk_load {depth : Nat} {root : String} {program : Program} (ht : h₀.Truthful files)
    (hrun : (load .plain depth root h₀).run files = .ok (program, host)) :
    ∃ t, Walk files h₀.options.target (starts h₀.options root) .start t ∧
      program = .ofTrail files h₀.options root t ∧ Abreast files h₀ host t := by
  rw [load_eq, Dialogue.run_bind, rootPath_plain] at hrun
  rcases hdemand : Loading.outcome files (demandAll .plain h₀.options depth root)
      ⟨h₀, .empty, []⟩ with halt | ⟨missing, p⟩
  · rw [Loading.outcome] at hdemand
    rw [hdemand] at hrun
    cases hrun
  · obtain ⟨hmissing, hwalk, ha⟩ := walked_demandAll (.start ht) hdemand
    rw [Loading.outcome] at hdemand
    rw [hdemand] at hrun
    obtain ⟨rfl, rfl⟩ := Prod.mk.inj (Except.ok.inj hrun)
    refine ⟨p.trail, hwalk, ?_, ha⟩
    rw [hmissing]
    rfl

/-! ## What a program consists of -/

/-- Whether a program consists of the files that imports lead to from some paths. -/
structure FollowsImports (files : String → Option Bytes) (target : LanguageTarget)
    (starts : List String) (p : Program) : Prop where
  nodup : p.paths.Nodup
  mem_paths : ∀ path, path ∈ p.paths ↔
    ∃ start ∈ starts, (files start).isSome ∧ Reaches files start path
  /-- A file stands behind those that it imports, unless they lead back to it. -/
  order : ∀ importer imported, importer ∈ p.paths → Imports files importer imported →
    ¬ Reaches files imported importer → [imported, importer].Sublist p.paths
  /-- Each file is there with its own text and tree. -/
  tree : ∀ f ∈ p.files, ∃ bs, files f.source.path = some bs ∧
    f.source = ⟨f.source.path, Host.textOf bs, target⟩ ∧
    SyntaxTree.ofText? f.source.chars = some f.tree
  /-- Each import that leads to no file, and no other one, is reported where it stands. -/
  unresolved : ∀ f ∈ p.files, f.importDiagnostics =
    (f.tree.imports.filter fun i ↦ !leads files f.source.path i).map fun i ↦
      (Diagnostic.error "TS2307" s!"Cannot find module '{i.specifier}'.").place f.source i.offset

/-- A program contains what its files import. -/
theorem FollowsImports.mem_of_imports {target : LanguageTarget} {starts : List String}
    {program : Program} (h : program.FollowsImports files target starts)
    {importer imported : String} (hmem : importer ∈ program.paths)
    (himports : Imports files importer imported) : imported ∈ program.paths := by
  obtain ⟨start, hstart, hthere, hreach⟩ := (h.mem_paths importer).mp hmem
  exact (h.mem_paths imported).mpr ⟨start, hstart, hthere, hreach.tail himports⟩

/-- Where no import of a file is reported, each of them leads to a file of the program. -/
theorem FollowsImports.exists_imported {target : LanguageTarget} {starts : List String}
    {program : Program} (h : program.FollowsImports files target starts) {f : LoadedFile}
    (hf : f ∈ program.files) (hnone : f.importDiagnostics = []) {i : Import}
    (hi : i ∈ f.tree.imports) :
    ∃ imported ∈ program.paths,
      Loading.resolved files f.source.path i.specifier = some imported := by
  rw [h.unresolved f hf, List.map_eq_nil_iff, List.filter_eq_nil_iff] at hnone
  have hleads : leads files f.source.path i = true := by simpa using hnone i hi
  obtain ⟨imported, hresolved, hthere⟩ := leads_iff.mp hleads
  obtain ⟨bs, hfile, hsource, htree⟩ := h.tree f hf
  rw [hsource] at htree
  have himports := (imports_iff hfile htree).mpr
    ⟨List.mem_filterMap.mpr ⟨i, hi, hresolved⟩, hthere⟩
  exact ⟨imported, h.mem_of_imports (List.mem_map_of_mem hf) himports, hresolved⟩

/-- A walk comes to a program of the files that imports lead to. -/
theorem followsImports_ofTrail {options : CompileOptions} {root : String} {t : Trail}
    (hwalk : Walk files options.target (starts options root) .start t) :
    (ofTrail files options root t).FollowsImports files options.target (starts options root) := by
  have ht := hwalk.sound .start
  have hpaths : (ofTrail files options root t).paths = t.paths.reverse :=
    List.map_reverse
  have hkept : ∀ f ∈ (ofTrail files options root t).files, ∃ bs tree,
      files f.source.path = some bs ∧ SyntaxTree.ofText? (Host.textOf bs) = some tree ∧
        f = kept files options.target f.source.path bs tree :=
    fun f hf ↦ ht.kept f (List.mem_reverse.mp hf)
  constructor
  · rw [hpaths]
    exact List.pairwise_reverse.mpr (ht.nodup.imp Ne.symm)
  · intro path
    rw [hpaths, List.mem_reverse]
    exact hwalk.mem_paths_iff
  · intro importer imported hmem himports hback
    rw [hpaths] at hmem ⊢
    rw [List.mem_reverse] at hmem
    exact (hwalk.ordered_paths.sublist hmem himports hback).reverse
  · intro f hf
    obtain ⟨bs, tree, hfile, htree, hf⟩ := hkept f hf
    have hsource : f.source = ⟨f.source.path, Host.textOf bs, options.target⟩ :=
      congrArg LoadedFile.source hf
    have htree' : f.tree = tree := congrArg LoadedFile.tree hf
    exact ⟨bs, hfile, hsource, by rw [hsource, htree', htree]⟩
  · intro f hf
    obtain ⟨bs, tree, hfile, htree, hf⟩ := hkept f hf
    have htree' : f.tree = tree := congrArg LoadedFile.tree hf
    have hunresolved : f.unresolved =
        tree.imports.filter fun i ↦ !leads files f.source.path i :=
      congrArg LoadedFile.unresolved hf
    rw [LoadedFile.importDiagnostics, hunresolved, htree']

/-- However files import each other, loading ends and follows the imports.  The program does not
depend on the source, as long as that answers, nor on the depth, beyond the number of files. -/
theorem load_followsImports {files : Table Bytes} (hreadable : Loading.Readable files.get?)
    {host : Host} (ht : host.Truthful files.get?) (root : String) :
    ∃ program host',
      (∀ {β : Type} [Source β] {good : β → Prop} {depth : Nat} {b : β}, Honest files.get? good →
        files.size < depth → good b → (∀ e, ¬ Breaks (load .plain depth root host) b e) →
          ((load .plain depth root host).runOver b).1 = .ok (.ok (program, host'))) ∧
      program.FollowsImports files.get? host.options.target (starts host.options root) := by
  obtain ⟨program, host', hrun⟩ := run_load hreadable (Nat.lt_succ_self _) .plain root ht
  refine ⟨program, host', fun {β _ good depth b} hhonest hdepth hb hholds ↦ ?_, ?_⟩
  · have hcourse := course_load (Nat.lt_succ_self _) hdepth .plain root ht
    rw [hhonest.runOver hb hholds, ← hrun]
    exact congrArg Except.ok (congrArg Prod.fst hcourse).symm
  · obtain ⟨t, hwalk, rfl, -⟩ := walk_load ht hrun
    exact followsImports_ofTrail hwalk

/-- Two files that import each other, one of them also itself and the other one a file that is not
there. -/
def circle : Table Bytes :=
  .ofList [("a.ts", bytesOf "import b from './b'; import c from './c'"),
    ("b.ts", bytesOf "import a from './a'; import b from './b'")]

theorem load_followsImports_circle :
    Loading.Readable circle.get? ∧ (Host.start {}).Truthful circle.get? ∧
      Honest circle.get? (fun s : Shelf ↦ s.files = circle) ∧ circle.size < 3 ∧
      (∀ e, ¬ Breaks (load .plain 3 "a.ts" (Host.start {})) (⟨circle, none, []⟩ : Shelf) e) ∧
      ∃ program host',
        ((load .plain 3 "a.ts" (Host.start {})).runOver (⟨circle, none, []⟩ : Shelf)).1 =
          .ok (.ok (program, host')) ∧
        program.FollowsImports circle.get? .es5 ["typescript/lib/lib.core.d.ts", "a.ts"] := by
  have hreadable : Loading.Readable circle.get? := .of_entries (by decide +kernel)
  have ht : (Host.start {}).Truthful circle.get? := Host.truthful_start {}
  have hdepth : circle.size < 3 := by decide
  have hholds : ∀ e,
      ¬ Breaks (load .plain 3 "a.ts" (Host.start {})) (⟨circle, none, []⟩ : Shelf) e :=
    fun _ ↦ not_breaks_shelf rfl
  obtain ⟨program, host', hrun, hfollows⟩ := load_followsImports hreadable ht "a.ts"
  exact ⟨hreadable, ht, honest_shelf circle, hdepth, hholds, program, host',
    hrun (honest_shelf circle) hdepth rfl hholds, hfollows⟩

end Program

end PipedCompiler.Compile
