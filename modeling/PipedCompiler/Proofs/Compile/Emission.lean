import PipedCompiler.Proofs.Compile.Verdict

/-!
# What emitting writes

No two of the files that are written have the same canonical name, so nothing is written over.
Every module of a program is either written, and named as emitted, or, if an earlier one goes to the
same file, reported, so no module is lost.
-/

namespace PipedCompiler.Compile

open PipedCompiler.Text PipedCompiler.Language

namespace Program

/-! ## What each file adds -/

/-- Emissions one behind the other. -/
def Emission.join (parts : List Emission) : Emission :=
  ⟨parts.flatMap Emission.writes, parts.flatMap Emission.files,
    parts.flatMap Emission.diagnostics⟩

section Parts

variable (canonicalName : String → String) (render : LoadedFile → String)

/-- The canonical name of the file that a module is emitted to. -/
def destination (f : LoadedFile) : String := canonicalName (outputPath f.source.path)

/-- Whether a module among some files is emitted to the same file as this one. -/
def Collides (earlier : List LoadedFile) (f : LoadedFile) : Prop :=
  ∃ g ∈ earlier, g.source.isDeclaration = false ∧
    destination canonicalName g = destination canonicalName f

/-- What a file of a program adds to its emission, where `earlier` stand before it. -/
inductive Adds (earlier : List LoadedFile) (f : LoadedFile) : Emission → Prop
  /-- Files of declarations add nothing. -/
  | declares (h : f.source.isDeclaration = true) : Adds earlier f ⟨[], [], []⟩
  | writes (h : f.source.isDeclaration = false) (hnew : ¬ Collides canonicalName earlier f) :
      Adds earlier f ⟨[(outputPath f.source.path, render f)], [outputPath f.source.path], []⟩
  | overwrites (h : f.source.isDeclaration = false) (hold : Collides canonicalName earlier f) :
      Adds earlier f ⟨[], [], [overwritten (outputPath f.source.path)]⟩

/-- Whether every file adds its part, where `earlier` stand before all of them. -/
def AddsEach (earlier fs : List LoadedFile) (parts : List Emission) : Prop :=
  parts.length = fs.length ∧ ∀ i f part, fs[i]? = some f → parts[i]? = some part →
    Adds canonicalName render (earlier ++ fs.take i) f part

variable {canonicalName render} {taken : List String} {earlier fs : List LoadedFile}
  {f : LoadedFile}

theorem AddsEach.nil : AddsEach canonicalName render earlier [] [] :=
  ⟨rfl, nofun⟩

theorem AddsEach.cons {part : Emission} {parts : List Emission}
    (h : Adds canonicalName render earlier f part)
    (hparts : AddsEach canonicalName render (earlier ++ [f]) fs parts) :
    AddsEach canonicalName render earlier (f :: fs) (part :: parts) := by
  refine ⟨congrArg (· + 1) hparts.1, ?_⟩
  intro i g q hg hq
  cases i with
  | zero =>
      obtain rfl : f = g := by simpa using hg
      obtain rfl : part = q := by simpa using hq
      simpa using h
  | succ i =>
      have hlater := hparts.2 i g q (by simpa using hg) (by simpa using hq)
      simpa using hlater

/-! ## One file after the other -/

/-- Whether these are the canonical names of the files that some modules are emitted to. -/
def Taken (canonicalName : String → String) (taken : List String) (earlier : List LoadedFile) :
    Prop :=
  ∀ key, key ∈ taken ↔
    ∃ g ∈ earlier, g.source.isDeclaration = false ∧ destination canonicalName g = key

theorem taken_nil : Taken canonicalName [] [] := by
  intro key
  simp

theorem Taken.declares (h : Taken canonicalName taken earlier)
    (hf : f.source.isDeclaration = true) : Taken canonicalName taken (earlier ++ [f]) := by
  intro key
  rw [h key]
  simp [or_and_right, exists_or, hf]

theorem Taken.writes (h : Taken canonicalName taken earlier)
    (hf : f.source.isDeclaration = false) :
    Taken canonicalName (destination canonicalName f :: taken) (earlier ++ [f]) := by
  intro key
  rw [List.mem_cons, h key]
  simp only [List.mem_append, List.mem_singleton, or_and_right, exists_or, exists_eq_left, hf,
    true_and]
  rw [or_comm, eq_comm]

/-- A module that is emitted to a file that has been written takes no other one. -/
theorem Taken.overwrites (h : Taken canonicalName taken earlier)
    (hf : f.source.isDeclaration = false) (hold : destination canonicalName f ∈ taken) :
    Taken canonicalName taken (earlier ++ [f]) := by
  intro key
  rw [← h.writes hf key, List.mem_cons, or_iff_right_of_imp]
  rintro rfl
  exact hold

theorem emitFiles_of_mem (hold : destination canonicalName f ∈ taken) :
    emitFiles canonicalName render taken (f :: fs) =
      let later := emitFiles canonicalName render taken fs
      ⟨later.writes, later.files,
        overwritten (outputPath f.source.path) :: later.diagnostics⟩ := by
  rw [emitFiles]
  exact if_pos (List.contains_iff_mem.mpr hold)

theorem emitFiles_of_notMem (hnew : destination canonicalName f ∉ taken) :
    emitFiles canonicalName render taken (f :: fs) =
      let later := emitFiles canonicalName render (destination canonicalName f :: taken) fs
      ⟨(outputPath f.source.path, render f) :: later.writes,
        outputPath f.source.path :: later.files, later.diagnostics⟩ := by
  rw [emitFiles]
  exact if_neg (mt List.contains_iff_mem.mp hnew)

/-- The modules among some files are emitted part by part. -/
theorem exists_addsEach (h : Taken canonicalName taken earlier) :
    ∃ parts, AddsEach canonicalName render earlier fs parts ∧
      emitFiles canonicalName render taken (fs.filter (!·.source.isDeclaration)) = .join parts := by
  induction fs generalizing taken earlier with
  | nil => exact ⟨[], .nil, rfl⟩
  | cons f fs ih =>
      cases hf : f.source.isDeclaration with
      | true =>
          obtain ⟨parts, hparts, hjoin⟩ := ih (h.declares hf)
          refine ⟨⟨[], [], []⟩ :: parts, .cons (.declares hf) hparts, ?_⟩
          rw [List.filter_cons_of_neg (by simp [hf]), hjoin]
          rfl
      | false =>
          rw [List.filter_cons_of_pos (by simp [hf])]
          by_cases hold : destination canonicalName f ∈ taken
          · obtain ⟨parts, hparts, hjoin⟩ := ih (h.overwrites hf hold)
            refine ⟨_, .cons (.overwrites hf ((h _).mp hold)) hparts, ?_⟩
            rw [emitFiles_of_mem hold, hjoin]
            rfl
          · obtain ⟨parts, hparts, hjoin⟩ := ih (h.writes hf)
            refine ⟨_, .cons (.writes hf (mt (h _).mpr hold)) hparts, ?_⟩
            rw [emitFiles_of_notMem hold, hjoin]
            rfl

/-- The files that are named as emitted are those that are written, in the same order. -/
theorem files_emitFiles :
    (emitFiles canonicalName render taken fs).files =
      (emitFiles canonicalName render taken fs).writes.map Prod.fst := by
  induction fs generalizing taken with
  | nil => rfl
  | cons f fs ih =>
      by_cases hold : destination canonicalName f ∈ taken
      · rw [emitFiles_of_mem hold]
        exact ih
      · rw [emitFiles_of_notMem hold]
        exact congrArg (outputPath f.source.path :: ·) ih

/-- What is written has other canonical names than what has been written before, and no two files
have the same one. -/
theorem nodup_writes_emitFiles :
    ((emitFiles canonicalName render taken fs).writes.map fun w ↦ canonicalName w.1).Nodup ∧
      ∀ w ∈ (emitFiles canonicalName render taken fs).writes, canonicalName w.1 ∉ taken := by
  induction fs generalizing taken with
  | nil => exact ⟨List.nodup_nil, nofun⟩
  | cons f fs ih =>
      by_cases hold : destination canonicalName f ∈ taken
      · rw [emitFiles_of_mem hold]
        exact ih
      · obtain ⟨hnodup, hfresh⟩ := @ih (destination canonicalName f :: taken)
        rw [emitFiles_of_notMem hold, List.map_cons, List.nodup_cons, List.forall_mem_cons]
        refine ⟨⟨?_, hnodup⟩, hold, ?_⟩
        · intro hmem
          obtain ⟨w, hw, hname⟩ := List.mem_map.mp hmem
          apply hfresh w hw
          rw [hname]
          exact List.mem_cons_self
        · intro w hw hmem
          exact hfresh w hw (List.mem_cons_of_mem _ hmem)

end Parts

/-- Emitting a program writes no file over and loses no module: the canonical names of what is
written differ from each other; the files named as emitted are those that are written, in the order
of writing; the emission is put together of what each file adds, in their order; and the output of
the host grows by the paths and the texts of what is written. -/
theorem emit_addsEach (p : Program) (canonicalName : String → String) (newLine : String)
    (host : Host) :
    let emission := p.emit canonicalName newLine
    let output := (host.writeAll emission.writes).output
    (emission.writes.map fun w ↦ canonicalName w.1).Nodup ∧
      emission.files = emission.writes.map Prod.fst ∧
      (∃ parts, emission = .join parts ∧
        AddsEach canonicalName (fun f ↦ Language.emit p.target newLine f.tree.statements) []
          p.files parts) ∧
      output.files = host.output.files ++ emission.writes.map Prod.fst ∧
      output.text = host.output.text ++ String.join (emission.writes.map Prod.snd) := by
  intro emission output
  have houtput := host.output_writeAll emission.writes
  refine ⟨nodup_writes_emitFiles.1, files_emitFiles, ?_, congrArg Output.files houtput,
    congrArg Output.text houtput⟩
  obtain ⟨parts, hparts, hjoin⟩ := exists_addsEach taken_nil
  exact ⟨parts, hjoin, hparts⟩

end Program

end PipedCompiler.Compile
