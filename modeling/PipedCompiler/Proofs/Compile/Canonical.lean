import Mathlib.Data.List.Nodup
import PipedCompiler.Proofs.Compile.Chains
import PipedCompiler.Proofs.Compile.Emission
import PipedCompiler.Proofs.Language.NormalPath

/-!
# Relative imports keep paths normal

From a root that is given by a normal path, relative imports lead to normal paths only, over any
number of files.  A place has one normal path, so no file is loaded a second time by another path,
and every module is emitted once.
-/

namespace PipedCompiler.Compile

open PipedCompiler.Text PipedCompiler.Bridge PipedCompiler.Language

/-! ## Imports -/

section Imports

variable {importer importer' specifier specifier' path : String}

/-- What a relative import of a file with a normal path may stand for has a normal path. -/
theorem isNormal_of_mem_probes (h : IsNormal importer.toList)
    (hrelative : isRelative specifier.toList = true) (hpath : path ∈ probes importer specifier) :
    IsNormal path.toList := by
  obtain ⟨hwith, hwithout⟩ := isNormal_importBase h hrelative
  rw [probes] at hpath
  split at hpath
  · next hextension =>
    rw [List.mem_singleton.mp hpath, String.toList_ofList]
    exact hwith hextension
  · next hextension =>
    have hends : ∀ ext ∈ [".ts", ".d.ts"], '/' ∉ ext.toList ∧ 3 ≤ ext.toList.length := by decide
    obtain ⟨ext, hext, rfl⟩ : ∃ ext ∈ [".ts", ".d.ts"],
        path = String.ofList (importBase importer.toList specifier.toList) ++ ext := by
      simpa using hpath
    rw [String.toList_append, String.toList_ofList]
    exact hwithout (Bool.eq_false_iff.mpr hextension) _ (hends ext hext).1 (hends ext hext).2

/-- Chains of relative imports lead from normal paths to normal paths. -/
theorem Chained.isNormal {files : List LoadedFile} {start : String → Prop}
    (hstart : ∀ path, start path → IsNormal path.toList)
    (h : Chained files (fun i ↦ isRelative i.specifier.toList = true) start path) :
    IsNormal path.toList := by
  induction h with
  | start h => exact hstart _ h
  | step _ _ _ hrelative hpath ih => exact isNormal_of_mem_probes ih hrelative hpath

theorem probes_congr (h : importBase importer.toList specifier.toList =
    importBase importer'.toList specifier'.toList) :
    probes importer specifier = probes importer' specifier' := by
  rw [probes, probes, h]

theorem Loading.resolve_congr (h : importBase importer.toList specifier.toList =
    importBase importer'.toList specifier'.toList) :
    Loading.resolve importer specifier = Loading.resolve importer' specifier' := by
  rw [Loading.resolve, Loading.resolve, h]

end Imports

/-! ## Modules -/

namespace Program

section Emission

variable {canonicalName : String → String} {render : LoadedFile → String} {taken : List String}
variable {fs : List LoadedFile} {f : LoadedFile}

/-- Every module has its file written, unless that has been done. -/
theorem destination_mem_writes (hf : f ∈ fs) (hnew : destination canonicalName f ∉ taken) :
    destination canonicalName f ∈
      (emitFiles canonicalName render taken fs).writes.map fun w ↦ canonicalName w.1 := by
  induction fs generalizing taken with
  | nil => cases hf
  | cons g fs ih =>
      by_cases hold : destination canonicalName g ∈ taken
      · rw [emitFiles_of_mem hold]
        rcases List.mem_cons.mp hf with rfl | hf
        · exact absurd hold hnew
        · exact ih hf hnew
      · rw [emitFiles_of_notMem hold, List.map_cons, List.mem_cons]
        by_cases hsame : destination canonicalName f = destination canonicalName g
        · exact .inl hsame
        · rcases List.mem_cons.mp hf with rfl | hf
          · exact absurd rfl hsame
          · exact .inr (ih hf (List.not_mem_cons_of_ne_of_not_mem hsame hnew))

/-- A module is written if no other one goes to the same file. -/
theorem mem_writes (hf : f ∈ fs) (hnew : destination canonicalName f ∉ taken)
    (halone : ∀ g ∈ fs, destination canonicalName g = destination canonicalName f → g = f) :
    (outputPath f.source.path, render f) ∈ (emitFiles canonicalName render taken fs).writes := by
  induction fs generalizing taken with
  | nil => cases hf
  | cons g fs ih =>
      rw [List.forall_mem_cons] at halone
      by_cases hold : destination canonicalName g ∈ taken
      · rw [emitFiles_of_mem hold]
        rcases List.mem_cons.mp hf with rfl | hf
        · exact absurd hold hnew
        · exact ih hf hnew halone.2
      · rw [emitFiles_of_notMem hold, List.mem_cons]
        by_cases hsame : destination canonicalName g = destination canonicalName f
        · obtain rfl := halone.1 hsame
          exact .inl rfl
        · rcases List.mem_cons.mp hf with rfl | hf
          · exact absurd rfl hsame
          · exact .inr (ih hf (List.not_mem_cons_of_ne_of_not_mem (Ne.symm hsame) hnew) halone.2)

end Emission

/-- Whether relative imports lead on from the root to a path, through files of the program. -/
def Followed (p : Program) : String → Prop :=
  Chained p.files (fun i ↦ isRelative i.specifier.toList = true) (· = p.root)

/-- Whether the output of every module is written once.  It is that of the module itself, unless
another one goes to the same file. -/
def EmitsOnce (p : Program) (canonicalName : String → String) (newLine : String) : Prop :=
  ∀ f ∈ p.files, f.source.isDeclaration = false →
    ((p.emit canonicalName newLine).writes.map fun w ↦ canonicalName w.1).count
        (destination canonicalName f) = 1 ∧
      ((∀ g ∈ p.files, g.source.isDeclaration = false →
          destination canonicalName g = destination canonicalName f → g = f) →
        (outputPath f.source.path, Language.emit p.target newLine f.tree.statements) ∈
          (p.emit canonicalName newLine).writes)

theorem emitsOnce (p : Program) (canonicalName : String → String) (newLine : String) :
    p.EmitsOnce canonicalName newLine := by
  intro f hf hmodule
  have hmem : f ∈ p.files.filter (!·.source.isDeclaration) :=
    List.mem_filter.mpr ⟨hf, by simp [hmodule]⟩
  refine ⟨List.count_eq_one_of_mem nodup_writes_emitFiles.1
    (destination_mem_writes hmem List.not_mem_nil), fun halone ↦ ?_⟩
  refine mem_writes hmem List.not_mem_nil fun g hg hsame ↦ ?_
  obtain ⟨hg, hmodule'⟩ := List.mem_filter.mp hg
  exact halone g hg (by simpa using hmodule') hsame

/-- Whatever a source answers, in a program with a root of a normal path all chains of relative
imports from the root lead to normal paths, and there is one such path to a place.  Relative
specifiers that fold to the same segments are looked for alike in the files of a directory.  No two
files have the same canonical name, every file is there because of the library, the root or an
import, and every module is emitted once. -/
theorem load_canonical {β : Type} [Source β] {place : Surroundings} {depth : Nat} {root : String}
    {host host' : Host} {b b' : β} {program : Program}
    (hload : (load place depth root host).runOver b = (.ok (.ok (program, host')), b'))
    (hroot : IsNormal (rootPath place root).toList) :
    (∀ path, program.Followed path → IsNormal path.toList) ∧
      (∀ path path', program.Followed path → program.Followed path' →
        Location.ofPath path.toList = Location.ofPath path'.toList → path = path') ∧
      (∀ f ∈ program.files, ∀ g ∈ program.files, ∀ i ∈ f.tree.imports, ∀ j ∈ g.tree.imports,
        isRelative i.specifier.toList = true → isRelative j.specifier.toList = true →
        parentDirectory f.source.path.toList = parentDirectory g.source.path.toList →
        Location.ofPath i.specifier.toList = Location.ofPath j.specifier.toList →
          probes f.source.path i.specifier = probes g.source.path j.specifier ∧
            Loading.resolve f.source.path i.specifier =
              Loading.resolve g.source.path j.specifier) ∧
      program.root = rootPath place root ∧
      (program.paths.map place.canonicalName).Nodup ∧ program.paths.Nodup ∧
      (∀ f ∈ program.files, Chained program.files (fun _ ↦ True)
        (· ∈ starts host.options program.root) f.source.path) ∧
      ∀ canonicalName newLine, program.EmitsOnce canonicalName newLine := by
  obtain ⟨hprogram, hnodup, hchained⟩ := chained_load hload
  have hnormal (path : String) (hpath : program.Followed path) : IsNormal path.toList := by
    refine Chained.isNormal ?_ hpath
    rintro _ rfl
    rwa [hprogram]
  refine ⟨hnormal, fun path path' hpath hpath' heq ↦ ?_,
    fun f _ g _ i _ j _ hi hj hdirectory hspecifier ↦ ?_, hprogram, hnodup,
    List.Nodup.of_map _ hnodup, hchained, program.emitsOnce⟩
  · exact String.toList_inj.mp ((hnormal path hpath).eq_of_ofPath_eq (hnormal path' hpath') heq)
  · have hbase := importBase_congr hi hj hdirectory hspecifier
    exact ⟨probes_congr hbase, Loading.resolve_congr hbase⟩

/-- Two files that import one file by different specifiers, and that file imports one of them. -/
def detour : Table Bytes :=
  .ofList [("src/a.ts", bytesOf "import b from '../src/b'; import c from './lib/../c'"),
    ("src/b.ts", bytesOf "import c from './c'"), ("src/c.ts", bytesOf "import a from './a'")]

theorem load_canonical_detour :
    ∃ program host' b',
      (load .plain 4 "src/a.ts" (Host.start { omitsDefaultLibrary := true })).runOver
          (⟨detour, none, []⟩ : Shelf) = (.ok (.ok (program, host')), b') ∧
        IsNormal (rootPath .plain "src/a.ts").toList ∧
        program.paths = ["src/c.ts", "src/b.ts", "src/a.ts"] ∧ program.paths.Nodup ∧
        (∀ path, program.Followed path → IsNormal path.toList) ∧ program.EmitsOnce id "\n" := by
  have hroot : IsNormal (rootPath .plain "src/a.ts").toList := by decide +kernel
  have hpaths : ((((load .plain 4 "src/a.ts" (Host.start { omitsDefaultLibrary := true })).runOver
      (⟨detour, none, []⟩ : Shelf)).1.toOption.bind Except.toOption).map fun r ↦ r.1.paths) =
      some ["src/c.ts", "src/b.ts", "src/a.ts"] := by
    decide +kernel
  rcases hload : (load .plain 4 "src/a.ts" (Host.start { omitsDefaultLibrary := true })).runOver
      (⟨detour, none, []⟩ : Shelf) with ⟨e | halt | ⟨program, host'⟩, b'⟩
  · rw [hload] at hpaths
    cases hpaths
  · rw [hload] at hpaths
    cases hpaths
  · rw [hload] at hpaths
    obtain ⟨hnormal, -, -, -, -, hnodup, -, hemits⟩ := load_canonical hload hroot
    exact ⟨program, host', b', rfl, hroot, Option.some.inj hpaths, hnodup, hnormal, hemits id "\n"⟩

end Program

end PipedCompiler.Compile
