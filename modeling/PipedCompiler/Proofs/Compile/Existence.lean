import PipedCompiler.Proofs.Compile.Verdict

/-!
# Asking whether files exist

A parent that can be asked whether a file exists need not be asked what it holds.  Nothing else
depends on that: where it cannot be asked, files are read instead, and compiles come to the same.
-/

namespace PipedCompiler.Compile

open PipedCompiler.Text PipedCompiler.Bridge

/-- If the parent cannot be asked whether a file exists, it is only asked what files hold. -/
theorem kind_of_mem_requests_compile {files : String → Option Bytes} {options : CompileOptions}
    (hasks : options.asksExistence = false) {depth : Nat} {root : String} {r : Request}
    (hr : r ∈ (compile options depth root).requests files) : r.kind = .contents := by
  obtain ⟨host, ⟨-, hcontents⟩, -⟩ :=
    (accounts_contents files).load_program .plain depth root (.start options)
  rw [requests_compile] at hr
  exact hcontents hasks r hr

/-- What a compile comes to does not depend on whether the parent can be asked if a file exists:
either way there is only one walk, and what is said on it follows from the walk. -/
theorem run_compile_asksExistence {files : String → Option Bytes} {options : CompileOptions}
    {asks asks' : Bool} {depth depth' : Nat} {root : String} {compiled compiled' : Compiled}
    (hrun : (compile { options with asksExistence := asks } depth root).run files = .ok compiled)
    (hrun' : (compile { options with asksExistence := asks' } depth' root).run files =
      .ok compiled') : compiled = compiled' := by
  obtain ⟨t, host, hwalk, ha, -, rfl⟩ := walk_of_run_compile hrun
  obtain ⟨t', host', hwalk', ha', -, rfl⟩ := walk_of_run_compile hrun'
  obtain rfl : t = t' := hwalk.deterministic hwalk'
  rw [ha.diagnostics_start, ha'.diagnostics_start]
  rfl

/-- A compile comes to the same whether or not the parent can be asked if a file exists; if it
cannot, it is only asked what files hold. -/
theorem compileOver_asksExistence {files : Table Bytes} (hreadable : Loading.Readable files.get?)
    (options : CompileOptions) {depth : Nat} (hdepth : files.size < depth) (root : String) :
    ∃ (c : BridgedCompile) (asking reading : List Request),
      compileOver { options with asksExistence := true } depth root (⟨files, none, []⟩ : Shelf) =
        (.ok c, ⟨files, none, asking⟩) ∧
      compileOver { options with asksExistence := false } depth root (⟨files, none, []⟩ : Shelf) =
        (.ok c, ⟨files, none, reading⟩) ∧
      ∀ r ∈ reading, r.kind = .contents := by
  obtain ⟨compiled, hrun⟩ :=
    run_compile hreadable hdepth { options with asksExistence := true } root
  obtain ⟨compiled', hrun'⟩ :=
    run_compile hreadable hdepth { options with asksExistence := false } root
  obtain rfl := run_compile_asksExistence hrun hrun'
  refine ⟨_, _, _, compileOver_shelf hrun, compileOver_shelf hrun', fun r hr ↦ ?_⟩
  exact kind_of_mem_requests_compile rfl (List.mem_reverse.mp hr)

/-- A file that imports, twice, one that is not a text. -/
def twice : Table Bytes :=
  .ofList [("a.ts", bytesOf "import b from './b'; import c from './b'; import d from './d'"),
    ("b.ts", [0xff])]

theorem compileOver_asksExistence_twice :
    Loading.Readable twice.get? ∧ twice.size < 3 ∧
      ∃ (c : BridgedCompile) (asking reading : List Request),
        compileOver {} 3 "a.ts" (⟨twice, none, []⟩ : Shelf) = (.ok c, ⟨twice, none, asking⟩) ∧
        compileOver { asksExistence := false } 3 "a.ts" (⟨twice, none, []⟩ : Shelf) =
          (.ok c, ⟨twice, none, reading⟩) ∧
        ∀ r ∈ reading, r.kind = .contents := by
  have hreadable : Loading.Readable twice.get? := .of_entries (by decide +kernel)
  have hdepth : twice.size < 3 := by decide
  exact ⟨hreadable, hdepth, compileOver_asksExistence hreadable {} hdepth "a.ts"⟩

end PipedCompiler.Compile
