import PipedCompiler.Compile.Basic
import PipedCompiler.Proofs.Compile.Loading

/-!
# Depths

A compile is given a depth that chains of imports must not exceed.  More depth only ever turns a
halt into something else, and where there is more depth than there are files there is no halt; so
beyond that all depths lead to the same questions and the same result.
-/

namespace PipedCompiler.Compile

open PipedCompiler.Text PipedCompiler.Bridge PipedCompiler.Language

/-! ## The course of a dialogue -/

namespace Dialogue

variable {α γ : Type} (files : String → Option Bytes)

/-- What a dialogue comes to, and what it asks, where the files are these. -/
def course (d : Dialogue α) : α × List Request :=
  (d.run files, d.requests files)

theorem course_bind (d : Dialogue α) (f : α → Dialogue γ) :
    (d.bind f).course files =
      (((f (d.course files).1).course files).1,
        (d.course files).2 ++ ((f (d.course files).1).course files).2) := by
  rw [course, run_bind, requests_bind]
  rfl

end Dialogue

namespace Loading

variable {α γ : Type} {files : String → Option Bytes}

/-- What a step of loading comes to, and what it asks, where the files are these. -/
def course (files : String → Option Bytes) (m : Loading α) (p : Progress) :
    Except Halt (α × Progress) × List Request :=
  (m.run p).run.course files

theorem course_bind (m : Loading α) (f : α → Loading γ) (p : Progress) :
    course files (m >>= f) p =
      match course files m p with
      | (.ok (a, p'), rs) => ((course files (f a) p').1, rs ++ (course files (f a) p').2)
      | (.error halt, rs) => (.error halt, rs) := by
  rw [course, StateT.run_bind, ExceptT.run_bind, Dialogue.bind_eq, Dialogue.course_bind]
  show _ = match (m.run p).run.course files with
    | (.ok (a, p'), rs) => _
    | (.error halt, rs) => _
  rcases (m.run p).run.course files with ⟨halt | ⟨a, p'⟩, rs⟩
  · simp [Dialogue.course, Dialogue.requests]
  · rfl

/-- Whether a step of loading goes the same way as another unless it halts for want of depth. -/
def Approximates (files : String → Option Bytes) (m m' : Loading α) : Prop :=
  ∀ p, outcome files m p = .error .deepImports ∨ course files m p = course files m' p

namespace Approximates

theorem refl (m : Loading α) : Approximates files m m :=
  fun _ ↦ .inr rfl

theorem trans {m m' m'' : Loading α} (h : Approximates files m m')
    (h' : Approximates files m' m'') : Approximates files m m'' := by
  intro p
  rcases h p with hdeep | hcourse
  · exact .inl hdeep
  rcases h' p with hdeep' | hcourse'
  · exact .inl ((congrArg Prod.fst hcourse).trans hdeep')
  · exact .inr (hcourse.trans hcourse')

theorem bind {m m' : Loading α} {f f' : α → Loading γ} (hm : Approximates files m m')
    (hf : ∀ a, Approximates files (f a) (f' a)) :
    Approximates files (m >>= f) (m' >>= f') := by
  intro p
  rcases hm p with hdeep | hcourse
  · refine .inl ?_
    rw [outcome_bind, hdeep]
    rfl
  rw [outcome_bind, course_bind, course_bind, ← hcourse]
  rcases hm : course files m p with ⟨halt | ⟨a, p'⟩, rs⟩
  · exact .inr rfl
  have houtcome : outcome files m p = .ok (a, p') := congrArg Prod.fst hm
  rw [houtcome]
  rcases hf a p' with hdeep' | hcourse'
  · exact .inl hdeep'
  · dsimp only
    rw [hcourse']
    exact .inr rfl

theorem follow {load load' : String → Loading Bool}
    (h : ∀ path, Approximates files (load path) (load' path)) (target : Option String) :
    Approximates files (follow load target) (follow load' target) := by
  cases target with
  | none => exact .refl _
  | some path => exact h path

theorem loadImports {load load' : String → Loading Bool}
    (h : ∀ path, Approximates files (load path) (load' path)) (importer : String)
    (is : List Import) :
    Approximates files (loadImports load importer is) (loadImports load' importer is) := by
  induction is with
  | nil => exact .refl _
  | cons i is ih =>
      rw [loadImports_cons, loadImports_cons]
      refine .bind (.refl _) fun target ↦ ?_
      refine .bind (.follow h target) fun found ↦ ?_
      exact .bind ih fun others ↦ .refl _

end Approximates

/-- More depth only matters where there is too little. -/
theorem approximates_load_succ (place : Surroundings) (target : LanguageTarget) (depth : Nat)
    (path : String) :
    Approximates files (load place target depth path) (load place target (depth + 1) path) := by
  induction depth generalizing path with
  | zero =>
      rw [load, load]
      refine .bind (.refl _) fun p ↦ ?_
      cases p.found.get? (place.canonicalName path) with
      | some found => exact .refl _
      | none => exact fun _ ↦ .inl rfl
  | succ depth ih =>
      rw [load, load]
      refine .bind (.refl _) fun p ↦ ?_
      cases p.found.get? (place.canonicalName path) with
      | some found => exact .refl _
      | none =>
          refine .bind (.refl _) fun _ ↦ .bind (.refl _) fun source ↦ ?_
          cases source with
          | none => exact .refl _
          | some source =>
              dsimp only
              cases SyntaxTree.ofText? source.chars with
              | none => exact .refl _
              | some tree => exact .bind (.loadImports ih path tree.imports) fun _ ↦ .refl _

theorem approximates_load (place : Surroundings) (target : LanguageTarget) {depth depth' : Nat}
    (h : depth ≤ depth') (path : String) :
    Approximates files (load place target depth path) (load place target depth' path) := by
  induction h with
  | refl => exact .refl _
  | step _ ih => exact ih.trans (approximates_load_succ place target _ path)

end Loading

/-! ## Programs -/

namespace Program

/-- Loads the library, unless there is to be none, and tells if it is missing. -/
def demandLibrary (place : Surroundings) (options : CompileOptions) (depth : Nat) :
    Loading (List String) :=
  if options.omitsDefaultLibrary then pure []
  else demand place options.target depth options.libraryPath

/-- Loads the library and a root, and tells what is missing. -/
def demandAll (place : Surroundings) (options : CompileOptions) (depth : Nat) (path : String) :
    Loading (List String) := do
  let library ← demandLibrary place options depth
  let main ← demand place options.target depth path
  return library ++ main

@[simp] theorem rootPath_plain (root : String) : rootPath .plain root = root := by
  simp [rootPath, Surroundings.plain]

/-- Loading a program is demanding the library and the root, and then keeping the files. -/
theorem load_eq (place : Surroundings) (depth : Nat) (root : String) (host : Host) :
    load place depth root host =
      ((demandAll place host.options depth (rootPath place root)).run ⟨host, .empty, []⟩).run.bind
        fun
        | .ok (missing, p) => .done <| .ok
          (⟨rootPath place root, host.options.target, p.files.reverse, missing⟩, p.host)
        | .error halt => .done (.error halt) := by
  dsimp only [load, demandAll, demandLibrary]
  cases host.options.omitsDefaultLibrary <;> rfl

theorem approximates_demandAll (files : String → Option Bytes) (place : Surroundings)
    (options : CompileOptions) {depth depth' : Nat} (h : depth ≤ depth') (path : String) :
    Loading.Approximates files (demandAll place options depth path)
      (demandAll place options depth' path) := by
  have hdemand : ∀ path, Loading.Approximates files (demand place options.target depth path)
      (demand place options.target depth' path) := fun path ↦
    .bind (Loading.approximates_load place options.target h path) fun _ ↦ .refl _
  refine .bind ?_ fun library ↦ .bind (hdemand path) fun _ ↦ .refl _
  rw [demandLibrary, demandLibrary]
  cases options.omitsDefaultLibrary with
  | true => exact .refl _
  | false => exact hdemand options.libraryPath

section Table

variable {files : Table Bytes} {host : Host} {depth : Nat}

theorem ends_demand (hdepth : files.size < depth) (place : Surroundings)
    (target : LanguageTarget) {p : Progress} (ht : p.host.Truthful files.get?) (path : String) :
    Loading.Ends files.get? (demand place target depth path) p := by
  have hleft : (Loading.unvisited files place p).length < depth :=
    Nat.lt_of_le_of_lt (Loading.length_unvisited_le p) hdepth
  exact (Loading.ends_load target path ht hleft).bind fun found p' hp' ↦ .pure hp'.truthful

theorem ends_demandAll (hdepth : files.size < depth) (place : Surroundings)
    (options : CompileOptions) {p : Progress} (ht : p.host.Truthful files.get?) (path : String) :
    Loading.Ends files.get? (demandAll place options depth path) p := by
  have hlibrary : Loading.Ends files.get? (demandLibrary place options depth) p := by
    rw [demandLibrary]
    cases options.omitsDefaultLibrary with
    | true => exact .pure ht
    | false => exact ends_demand hdepth place options.target ht options.libraryPath
  refine hlibrary.bind fun library p₁ hp₁ ↦ ?_
  refine (ends_demand hdepth place options.target hp₁.truthful path).bind fun main p₂ hp₂ ↦ ?_
  exact .pure hp₂.truthful

/-- With more depth than there are files, a program is loaded without a halt. -/
theorem run_load (hreadable : Loading.Readable files.get?) (hdepth : files.size < depth)
    (place : Surroundings) (root : String) (ht : host.Truthful files.get?) :
    ∃ program host', (load place depth root host).run files.get? = .ok (program, host') := by
  obtain ⟨missing, p, hrun, -⟩ := (ends_demandAll hdepth place host.options
    (p := ⟨host, .empty, []⟩) ht (rootPath place root)).settles hreadable
  rw [Loading.outcome] at hrun
  rw [load_eq, Dialogue.run_bind, hrun]
  exact ⟨_, _, rfl⟩

/-- With more depth than there are files, the way a program is loaded does not depend on depth. -/
theorem course_load (hdepth : files.size < depth) {depth' : Nat} (h : depth ≤ depth')
    (place : Surroundings) (root : String) (ht : host.Truthful files.get?) :
    (load place depth root host).course files.get? =
      (load place depth' root host).course files.get? := by
  have hends : Loading.Ends files.get? (demandAll place host.options depth (rootPath place root))
      ⟨host, .empty, []⟩ := ends_demandAll hdepth place host.options ht _
  have hcourse := (approximates_demandAll files.get? place host.options h (rootPath place root)
    ⟨host, .empty, []⟩).resolve_left hends.ne_deep
  rw [load_eq, load_eq, Dialogue.course_bind, Dialogue.course_bind]
  rw [Loading.course] at hcourse
  rw [hcourse]
  rfl

end Table

end Program

/-! ## Compiles -/

section Compile

variable {files : Table Bytes} {depth : Nat}

/-- A compile comes to something if a program is loaded, which it then compiles. -/
theorem run_compile_eq_ok_iff {files : String → Option Bytes} {options : CompileOptions}
    {depth : Nat} {root : String} {compiled : Compiled} :
    (compile options depth root).run files = .ok compiled ↔
      ∃ program host, (Program.load .plain depth root (.start options)).run files =
        .ok (program, host) ∧ program.compile root host = compiled := by
  rw [compile, Dialogue.bind_eq, Dialogue.run_bind]
  rcases (Program.load .plain depth root (.start options)).run files with halt | ⟨program, host⟩
  · constructor
    · intro h
      cases h
    · rintro ⟨_, _, ⟨⟩, -⟩
  · constructor
    · rintro ⟨⟩
      exact ⟨program, host, rfl, rfl⟩
    · rintro ⟨_, _, ⟨⟩, rfl⟩
      rfl

/-- With more depth than there are files, a compile does not halt. -/
theorem run_compile (hreadable : Loading.Readable files.get?) (hdepth : files.size < depth)
    (options : CompileOptions) (root : String) :
    ∃ compiled, (compile options depth root).run files.get? = .ok compiled := by
  obtain ⟨program, host, hrun⟩ := Program.run_load hreadable hdepth .plain root
    (Host.truthful_start options)
  exact ⟨program.compile root host, run_compile_eq_ok_iff.mpr ⟨program, host, hrun, rfl⟩⟩

/-- With more depth than there are files, neither the result of a compile nor its questions depend
on the depth. -/
theorem course_compile (hdepth : files.size < depth) {depth' : Nat} (h : depth ≤ depth')
    (options : CompileOptions) (root : String) :
    (compile options depth root).course files.get? =
      (compile options depth' root).course files.get? := by
  rw [compile, compile, Dialogue.bind_eq, Dialogue.bind_eq, Dialogue.course_bind,
    Dialogue.course_bind,
    Program.course_load hdepth h .plain root (Host.truthful_start options)]

/-- The questions of a compile, at a depth that is enough. -/
def questions (files : Table Bytes) (options : CompileOptions) (root : String) : List Request :=
  (compile options (files.size + 1) root).requests files.get?

/-- Beyond the number of files all depths lead to one compile with the same questions. -/
theorem exists_compiled (hreadable : Loading.Readable files.get?) (options : CompileOptions)
    (root : String) :
    ∃ compiled, ∀ depth, files.size < depth →
      (compile options depth root).run files.get? = .ok compiled ∧
        (compile options depth root).requests files.get? = questions files options root := by
  obtain ⟨compiled, hrun⟩ := run_compile hreadable (Nat.lt_succ_self _) options root
  refine ⟨compiled, fun depth hdepth ↦ ?_⟩
  have hcourse := course_compile (Nat.lt_succ_self _) hdepth options root
  rw [Dialogue.course, Dialogue.course, hrun, Prod.mk.injEq] at hcourse
  exact ⟨hcourse.1.symm, hcourse.2.symm⟩

end Compile

end PipedCompiler.Compile
