import PipedCompiler.Proofs.Compile.Verdict
import PipedCompiler.Proofs.Language.Names

/-!
# References

Where a compile has an output, nothing in its files refers to something that is not there: imports
lead to other files of the program, and names to what is declared.
-/

namespace PipedCompiler.Compile

open PipedCompiler.Text PipedCompiler.Bridge PipedCompiler.Language

section Linked

variable (files : String → Option Bytes)

/-- Whether a file is a text that reads as a module. -/
def Reads (path : String) (tree : SyntaxTree) : Prop :=
  ∃ bs chars, files path = some bs ∧ SourceFile.decode bs = .ok chars ∧
    SyntaxTree.ofText? chars = some tree

/-- Whether a file of declarations, among some files, declares a name. -/
def Ambient (sources : List String) (text : String) : Prop :=
  ∃ path ∈ sources, SourceFile.isDeclarationPath path = true ∧
    ∃ tree, Reads files path tree ∧ ∃ s ∈ tree.statements, s.Declares text

/-- Whether nothing in some files refers to something that is not there. -/
structure Linked (sources : List String) : Prop where
  /-- All of them are texts without errors. -/
  reads : ∀ path ∈ sources, ∃ tree, Reads files path tree ∧ tree.errors = []
  /-- Imports lead to files among them. -/
  imports : ∀ path ∈ sources, ∀ tree, Reads files path tree →
    ∀ binding specifier offset, .imports binding specifier offset ∈ tree.statements →
      ∃ imported ∈ sources, Loading.resolved files path specifier = some imported
  /-- Names are used as they may be. -/
  names : ∀ path ∈ sources, SourceFile.isDeclarationPath path = false →
    ∀ tree, Reads files path tree → WellNamed (Ambient files sources) tree.statements

end Linked

theorem Reads.unique {files : String → Option Bytes} {path : String} {tree tree' : SyntaxTree}
    (h : Reads files path tree) (h' : Reads files path tree') : tree = tree' := by
  obtain ⟨bs, chars, hfile, hdecode, htree⟩ := h
  obtain ⟨bs', chars', hfile', hdecode', htree'⟩ := h'
  obtain rfl := Option.some.inj (hfile.symm.trans hfile')
  obtain rfl := Except.ok.inj (hdecode.symm.trans hdecode')
  exact Option.some.inj (htree.symm.trans htree')

/-- A file about which there is nothing to say is a text. -/
theorem Host.decode_of_complaint?_eq_none {path : String} {bs : Bytes}
    (h : complaint? path bs = none) : SourceFile.decode bs = .ok (textOf bs) := by
  rw [complaint?] at h
  rw [textOf]
  cases hdecode : SourceFile.decode bs with
  | ok text => rfl
  | error e =>
      rw [hdecode] at h
      cases h

namespace Program

variable {p : Program}

/-! ## Programs about which there is nothing to say -/

theorem syntaxDiagnostics_eq_nil_iff :
    p.syntaxDiagnostics = [] ↔ ∀ f ∈ p.files, f.tree.errors = [] := by
  simp [syntaxDiagnostics, LoadedFile.syntaxDiagnostics]

theorem mem_globals_iff {text : String} :
    text ∈ p.globals ↔ ∃ f ∈ p.files, f.source.isDeclaration = true ∧
      ∃ s ∈ f.tree.statements, s.Declares text := by
  simp only [globals, List.mem_flatMap, List.mem_filter, mem_map_declaredNames_iff, and_assoc]

theorem semanticDiagnostics_eq_nil_iff :
    p.semanticDiagnostics = [] ↔ ∀ f ∈ p.files, f.unresolved = [] ∧
      (f.source.isDeclaration = false → WellNamed (· ∈ p.globals) f.tree.statements) := by
  rw [semanticDiagnostics, List.flatMap_eq_nil_iff]
  refine forall₂_congr fun f _ ↦ ?_
  rw [List.append_eq_nil_iff, LoadedFile.importDiagnostics, List.map_eq_nil_iff]
  refine and_congr_right fun _ ↦ ?_
  cases f.source.isDeclaration with
  | true => simp
  | false => simp [checkNames, nameErrors_eq_nil_iff]

section Trail

variable {files : String → Option Bytes} {options : CompileOptions} {root : String}
variable {t : Trail} {host : Host}

/-- Where nothing is said while files are loaded, all of them are texts. -/
theorem reads_of_mem (hwalk : Walk files options.target (starts options root) .start t)
    (ha : Abreast files (.start options) host t) (hsaid : host.diagnostics = [])
    {f : LoadedFile} (hf : f ∈ (ofTrail files options root t).files) :
    Reads files f.source.path f.tree := by
  obtain ⟨bs, hfile, hsource, htree⟩ := (followsImports_ofTrail hwalk).tree f hf
  have hkept : f.source.path ∈ t.paths := List.mem_map_of_mem (List.mem_reverse.mp hf)
  have hsound := hwalk.sound .start
  have hvisited : f.source.path ∈ t.visited :=
    Trail.mem_visited (hsound.get?_found (hsound.found _ hkept) (by simp [hfile]))
  rw [ha.diagnostics_start, Trail.complaints, List.filterMap_eq_nil_iff] at hsaid
  have hcomplaint : Host.complaint? f.source.path bs = none := by
    simpa [hfile] using hsaid _ hvisited
  refine ⟨bs, _, hfile, Host.decode_of_complaint?_eq_none hcomplaint, ?_⟩
  rw [hsource] at htree
  exact htree

/-- Where there is nothing to say about a program, nothing in it refers to something that is not
there. -/
theorem linked_ofTrail (hwalk : Walk files options.target (starts options root) .start t)
    (ha : Abreast files (.start options) host t)
    (hclean : ((ofTrail files options root t).findings options host.diagnostics).Clean) :
    Linked files (ofTrail files options root t).paths := by
  have hfollows : (ofTrail files options root t).FollowsImports files options.target
      (starts options root) := followsImports_ofTrail hwalk
  have hreads {f : LoadedFile} (hf : f ∈ (ofTrail files options root t).files) :
      Reads files f.source.path f.tree := reads_of_mem hwalk ha hclean.undecodable hf
  have hsemantic := semanticDiagnostics_eq_nil_iff.mp hclean.semantic
  refine ⟨fun path hpath ↦ ?_, fun path hpath tree htree ↦ ?_,
    fun path hpath hmodule tree htree ↦ ?_⟩
  · obtain ⟨f, hf, rfl⟩ := List.mem_map.mp hpath
    exact ⟨f.tree, hreads hf, syntaxDiagnostics_eq_nil_iff.mp hclean.syntactic f hf⟩
  · obtain ⟨f, hf, rfl⟩ := List.mem_map.mp hpath
    obtain rfl := (hreads hf).unique htree
    intro binding specifier offset hmem
    have hnone : f.importDiagnostics = [] := by
      rw [LoadedFile.importDiagnostics, (hsemantic f hf).1, List.map_nil]
    have himport : ⟨specifier, offset⟩ ∈ f.tree.imports := List.mem_filterMap.mpr ⟨_, hmem, rfl⟩
    obtain ⟨imported, himported, hresolved⟩ := hfollows.exists_imported hf hnone himport
    exact ⟨imported, himported, hresolved⟩
  · obtain ⟨f, hf, rfl⟩ := List.mem_map.mp hpath
    obtain rfl := (hreads hf).unique htree
    refine ((hsemantic f hf).2 hmodule).mono fun text htext ↦ ?_
    obtain ⟨g, hg, hdeclares, hs⟩ := mem_globals_iff.mp htext
    exact ⟨g.source.path, List.mem_map_of_mem hg, hdeclares, g.tree, hreads hg, hs⟩

end Trail

end Program

/-- Where a compile has an output, nothing in its files refers to something that is not there. -/
theorem compileOver_linked {β : Type} [Source β] {files : String → Option Bytes}
    {good : β → Prop} (hhonest : Honest files good) {options : CompileOptions} {depth : Nat}
    {root : String} {b b' : β} {output : CompileOutput} {reported : List Diagnostic} (hb : good b)
    (h : compileOver options depth root b = (.ok ⟨.ok output, reported⟩, b')) :
    Linked files output.sources := by
  obtain ⟨hrun, -⟩ := hhonest.run_eq hb (runOver_of_compileOver_eq_ok h)
  obtain ⟨t, host, hwalk, ha, -, hcompiled⟩ := walk_of_run_compile hrun
  have hverdict :=
    (Program.ofTrail files options root t).verdict_conclusion options host.diagnostics
  rw [← hcompiled] at hverdict
  rw [(hverdict.ok output rfl).1]
  exact Program.linked_ofTrail hwalk ha (hverdict.isOk_iff.mp ⟨output, rfl⟩)

/-- A library, and two files that use what it and the other one declare. -/
def sound : Table Bytes :=
  .ofList [("typescript/lib/lib.core.d.ts", bytesOf "declare log"),
    ("a.ts", bytesOf "import b from './b'; let y = log(b); y += -1"),
    ("b.ts", bytesOf "import a from './a'; export const x = log('b')")]

theorem compileOver_linked_sound :
    Honest sound.get? (fun s : Shelf ↦ s.files = sound) ∧
      ∃ output reported s,
        compileOver {} 4 "a.ts" (⟨sound, none, []⟩ : Shelf) = (.ok ⟨.ok output, reported⟩, s) ∧
        output.sources = ["typescript/lib/lib.core.d.ts", "b.ts", "a.ts"] ∧
        Linked sound.get? output.sources := by
  have hok : (match (compile {} 4 "a.ts").run sound.get? with
    | .ok ⟨.ok output, _⟩ => output.sources
    | _ => []) = ["typescript/lib/lib.core.d.ts", "b.ts", "a.ts"] := by decide +kernel
  split at hok
  · next output reported hrun =>
    have hover := compileOver_shelf hrun
    exact ⟨honest_shelf sound, output, reported, _, hover, hok,
      compileOver_linked (honest_shelf sound) rfl hover⟩
  · cases hok

end PipedCompiler.Compile
