import PipedCompiler.Parent.Serving
import PipedCompiler.Proofs.Compile.Depth
import PipedCompiler.Proofs.Compile.Source

/-!
# A compile depends on what it asks for

What a compile asks next depends on the answers so far, and on nothing else.  So where all that it
asks is answered in the same way, it asks the same and comes to the same, however much the files
differ elsewhere.
-/

namespace PipedCompiler.Compile

open PipedCompiler.Text PipedCompiler.Bridge PipedCompiler.Parent

/-- Whether a request is answered in the same way from both of two sets of files. -/
def Alike (files files' : String → Option Bytes) (r : Request) : Prop :=
  match r.kind with
  | .contents => files' r.path = files r.path
  | .presence => (files' r.path).isSome = (files r.path).isSome

theorem Alike.of_eq {files files' : String → Option Bytes} {r : Request}
    (h : files' r.path = files r.path) : Alike files files' r := by
  rw [Alike]
  split
  · exact h
  · rw [h]

/-- Tables answer in the same way just if the answers are the same. -/
theorem alike_iff {files files' : Table Bytes} {r : Request} :
    Alike files.get? files'.get? r ↔ (answer r files').1 = (answer r files).1 := by
  obtain ⟨kind, path⟩ := r
  cases kind with
  | contents =>
      show files'.get? path = files.get? path ↔
        Response.ofContents (files'.get? path) = .ofContents (files.get? path)
      cases files'.get? path <;> cases files.get? path <;> simp [Response.ofContents]
  | presence =>
      show (files'.get? path).isSome = (files.get? path).isSome ↔
        Response.presence (files'.contains path) = .presence (files.contains path)
      rw [Response.presence.injEq, Table.contains, Table.contains]

/-- A dialogue goes the same way wherever what it asks is answered in the same way. -/
theorem Dialogue.course_congr {α : Type} {files files' : String → Option Bytes} {d : Dialogue α}
    (h : ∀ r ∈ d.requests files, Alike files files' r) : d.course files' = d.course files := by
  induction d with
  | done a => rfl
  | contents path next ih =>
      rw [Dialogue.requests, List.forall_mem_cons] at h
      have hreply : files' path = files path := h.1
      obtain ⟨hrun, hrequests⟩ := Prod.mk.inj (ih _ h.2)
      rw [course, course, run, requests, run, requests, hreply, hrun, hrequests]
  | presence path next ih =>
      rw [Dialogue.requests, List.forall_mem_cons] at h
      have hreply : (files' path).isSome = (files path).isSome := h.1
      obtain ⟨hrun, hrequests⟩ := Prod.mk.inj (ih _ h.2)
      rw [course, course, run, requests, run, requests, hreply, hrun, hrequests]

section Compile

variable {files files' : Table Bytes} {options : CompileOptions} {depth depth' : Nat}
variable {root : String}

/-- With more depth than there are files, compiles go the same way wherever what one of them asks is
answered in the same way. -/
theorem course_compile_congr (hdepth : files.size < depth) (hdepth' : files'.size < depth')
    (h : ∀ r ∈ (compile options depth root).requests files.get?, Alike files.get? files'.get? r) :
    (compile options depth' root).course files'.get? =
      (compile options depth root).course files.get? := by
  -- Both depths are as good as the greater one, where the two compiles are one dialogue.
  have hcommon := course_compile hdepth (Nat.le_max_left depth depth') options root
  have hrequests : (compile options depth root).requests files.get? =
      (compile options (max depth depth') root).requests files.get? := congrArg Prod.snd hcommon
  rw [hrequests] at h
  calc (compile options depth' root).course files'.get?
      = (compile options (max depth depth') root).course files'.get? :=
        course_compile hdepth' (Nat.le_max_right depth depth') options root
    _ = (compile options (max depth depth') root).course files.get? := Dialogue.course_congr h
    _ = (compile options depth root).course files.get? := hcommon.symm

/-- A compile over a shelf comes to what it comes to with the files at hand, halts included, and
asks what it asks there. -/
theorem compileOver_shelf_course (files : Table Bytes) (options : CompileOptions) (depth : Nat)
    (root : String) :
    compileOver options depth root (⟨files, none, []⟩ : Shelf) =
      (((compile options depth root).course files.get?).1.map (Compiled.bridged root),
        ⟨files, none, ((compile options depth root).course files.get?).2.reverse⟩) := by
  rw [Dialogue.course]
  cases hrun : (compile options depth root).run files.get? with
  | ok compiled => exact compileOver_shelf hrun
  | error halt =>
      rw [compileOver, runOver_shelf, hrun, List.append_nil]
      rfl

/-- Compiling over two tables that answer in the same way all that is asked over the first one comes
to the same, shows the same and asks the same. -/
theorem compileOver_congr_answers (hdepth : files.size < depth) (hdepth' : files'.size < depth')
    (h : ∀ r ∈ (compileOver options depth root (⟨files, none, []⟩ : Shelf)).2.asked,
      (answer r files').1 = (answer r files).1) :
    ∃ result asked,
      compileOver options depth root (⟨files, none, []⟩ : Shelf) =
        (result, ⟨files, none, asked⟩) ∧
      compileOver options depth' root (⟨files', none, []⟩ : Shelf) =
        (result, ⟨files', none, asked⟩) := by
  rw [compileOver_shelf_course] at h
  have halike : ∀ r ∈ (compile options depth root).requests files.get?,
      Alike files.get? files'.get? r :=
    fun r hr ↦ alike_iff.mpr (h r (List.mem_reverse.mpr hr))
  have hcourse := course_compile_congr hdepth hdepth' halike
  refine ⟨_, _, compileOver_shelf_course files options depth root, ?_⟩
  rw [compileOver_shelf_course, hcourse]

/-- A file that imports another one, and a third one that nobody imports. -/
def threeFiles : Table Bytes :=
  .ofList [("a.ts", bytesOf "import b from './b'\nlet x = c"), ("b.ts", bytesOf "let y = 1"),
    ("c.ts", bytesOf "let z = 2")]

/-- The same without the third one, but with one that is looked for later than the second one. -/
def otherFiles : Table Bytes :=
  .ofList [("a.ts", bytesOf "import b from './b'\nlet x = c"), ("b.ts", bytesOf "let y = 1"),
    ("b.d.ts", bytesOf "declare c"), ("d.ts", [0xff])]

theorem compileOver_congr_answers_otherFiles :
    threeFiles.get? "c.ts" ≠ otherFiles.get? "c.ts" ∧
      ∃ result asked,
        compileOver {} 4 "a.ts" (⟨threeFiles, none, []⟩ : Shelf) =
          (result, ⟨threeFiles, none, asked⟩) ∧
        compileOver {} 5 "a.ts" (⟨otherFiles, none, []⟩ : Shelf) =
          (result, ⟨otherFiles, none, asked⟩) := by
  refine ⟨by decide, compileOver_congr_answers (by decide) (by decide) ?_⟩
  decide +kernel

end Compile

end PipedCompiler.Compile
