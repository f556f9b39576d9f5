import Mathlib.Logic.Function.Basic
import PipedCompiler.Proofs.Compile.Agreement
import PipedCompiler.Proofs.Compile.Program
import PipedCompiler.Proofs.Compile.Requests

/-!
# Which paths are asked about

A compile asks about the library and the root, and about what the imports of its files may stand
for.  It asks about nothing else, and it passes over no import.
-/

namespace PipedCompiler.Compile

open PipedCompiler.Text PipedCompiler.Bridge PipedCompiler.Language

/-! ## What imports may stand for -/

/-- The paths that an import may lead to, the first one first. -/
def probes (importer specifier : String) : List String :=
  let base := importBase importer.toList specifier.toList
  if hasExtension base then [String.ofList base]
  else [String.ofList base ++ ".ts", String.ofList base ++ ".d.ts"]

theorem mem_probes_of_resolved {files : String → Option Bytes} {importer specifier path : String}
    (h : Loading.resolved files importer specifier = some path) :
    path ∈ probes importer specifier := by
  simp only [Loading.resolved] at h
  simp only [probes]
  split at h
  · next hextension =>
      rw [if_pos hextension, ← Option.some.inj h]
      exact .head _
  · next hextension =>
      rw [if_neg hextension]
      split at h
      · rw [← Option.some.inj h]
        exact .head _
      · split at h
        · rw [← Option.some.inj h]
          exact .tail _ (.head _)
        · cases h

/-- An import leads to the first path that it may lead to, if there is such a file. -/
theorem exists_first_probe (importer specifier : String) :
    ∃ path ∈ probes importer specifier, ∀ files : String → Option Bytes,
      (files path).isSome = true → Loading.resolved files importer specifier = some path := by
  simp only [probes, Loading.resolved]
  split
  · next hextension =>
      exact ⟨_, .head _, fun files _ ↦ rfl⟩
  · next hextension =>
      refine ⟨_, .head _, fun files hthere ↦ ?_⟩
      rw [if_pos hthere]

/-! ## The imports of a program -/

section Sought

variable (files : String → Option Bytes) (options : CompileOptions) (root : String)

/-- Whether imports lead to a file from the library or the root. -/
def Belongs (path : String) : Prop :=
  ∃ start ∈ starts options root, (files start).isSome = true ∧ Reaches files start path

/-- Whether an import stands in a file that imports lead to from the library or the root. -/
def Stands (importer : String) (i : Import) : Prop :=
  Belongs files options root importer ∧ ∃ bs tree, files importer = some bs ∧
    SyntaxTree.ofText? (Host.textOf bs) = some tree ∧ i ∈ tree.imports

/-- Whether a path is the library, the root or what an import may lead to. -/
def Sought (path : String) : Prop :=
  path ∈ starts options root ∨
    ∃ importer i, Stands files options root importer i ∧ path ∈ probes importer i.specifier

/-- Whether a path is sought and belongs to the program if it is there. -/
structure Wanted (path : String) : Prop where
  sought : Sought files options root path
  belongs : (files path).isSome = true → Belongs files options root path

end Sought

section Wanted

variable {files : String → Option Bytes} {options : CompileOptions} {root : String}

theorem Wanted.of_mem_starts {path : String} (h : path ∈ starts options root) :
    Wanted files options root path :=
  ⟨.inl h, fun hthere ↦ ⟨path, h, hthere, .refl⟩⟩

theorem Wanted.library (homits : options.omitsDefaultLibrary = false) :
    Wanted files options root options.libraryPath :=
  .of_mem_starts (by simp [starts, homits])

theorem Wanted.self : Wanted files options root root := by
  refine .of_mem_starts ?_
  rw [starts]
  split
  · exact .head _
  · exact .tail _ (.head _)

/-- Where an import of a program leads to is wanted. -/
theorem Stands.wanted {importer path : String} {i : Import}
    (h : Stands files options root importer i)
    (hresolved : Loading.resolved files importer i.specifier = some path) :
    Wanted files options root path := by
  refine ⟨.inr ⟨importer, i, h, mem_probes_of_resolved hresolved⟩, fun hthere ↦ ?_⟩
  obtain ⟨⟨start, hstart, hstarts, hreach⟩, bs, tree, hfile, htree, hi⟩ := h
  refine ⟨start, hstart, hstarts, hreach.tail ⟨bs, tree, hfile, htree, ?_, hthere⟩⟩
  exact List.mem_filterMap.mpr ⟨i, hi, hresolved⟩

end Wanted

/-! ## Nothing else is asked about -/

namespace Host

variable {files : String → Option Bytes} {h : Host} {path : String} {r : Request}

theorem path_of_mem_requests_load (hr : r ∈ ((load path).run h).requests files) :
    r.path = path := by
  cases hknown : h.known.get? path with
  | some text =>
      rw [load_known hknown] at hr
      cases hr
  | none =>
      rw [load_new hknown] at hr
      rw [List.mem_singleton.mp hr]

theorem path_of_mem_requests_exists (hr : r ∈ ((exists? path).run h).requests files) :
    r.path = path := by
  cases hknown : h.known.get? path with
  | some text =>
      rw [exists_known hknown] at hr
      cases hr
  | none =>
      rw [exists_new hknown] at hr
      split at hr
      · rw [List.mem_singleton.mp hr]
      · rw [List.mem_singleton.mp hr]

end Host

namespace Loading

variable {α γ : Type} {files : String → Option Bytes} {E : String → Prop}

/-- Whether a step of loading asks only about some paths, and what it comes to is so. -/
def Seeks (files : String → Option Bytes) (E : String → Prop) (m : Loading α) (Q : α → Prop) :
    Prop :=
  ∀ p, p.host.Truthful files → (∀ r ∈ (course files m p).2, E r.path) ∧
    ∀ a p', (course files m p).1 = .ok (a, p') → p'.host.Truthful files ∧ Q a

namespace Seeks

variable {m : Loading α} {f : α → Loading γ} {Q : α → Prop} {Q' : γ → Prop}

theorem bind (hm : Seeks files E m Q) (hf : ∀ a, Q a → Seeks files E (f a) Q') :
    Seeks files E (m >>= f) Q' := by
  intro p ht
  obtain ⟨hasks, hright⟩ := hm p ht
  rw [course_bind]
  rcases hcourse : course files m p with ⟨halt | ⟨a, p₁⟩, rs⟩
  · rw [hcourse] at hasks
    refine ⟨hasks, fun a p' h ↦ ?_⟩
    cases h
  · rw [hcourse] at hasks hright
    obtain ⟨ht₁, ha⟩ := hright a p₁ rfl
    obtain ⟨hasks', hright'⟩ := hf a ha p₁ ht₁
    exact ⟨fun r hr ↦ (List.mem_append.mp hr).elim (hasks r) (hasks' r), hright'⟩

theorem pure {a : α} (ha : Q a) : Seeks files E (pure a) Q := by
  intro p ht
  refine ⟨nofun, ?_⟩
  rintro _ _ ⟨⟩
  exact ⟨ht, ha⟩

theorem get : Seeks files E get fun _ ↦ True := by
  intro p ht
  refine ⟨nofun, ?_⟩
  rintro _ _ ⟨⟩
  exact ⟨ht, trivial⟩

theorem throw (halt : Halt) : Seeks files E (throw halt : Loading α) Q := by
  intro p ht
  refine ⟨nofun, fun a p' h ↦ ?_⟩
  cases h

theorem modify {f : Progress → Progress} (hf : ∀ p, (f p).host = p.host) :
    Seeks files E (modify f) fun _ ↦ True := by
  intro p ht
  refine ⟨nofun, ?_⟩
  rintro _ _ ⟨⟩
  exact ⟨(hf p).symm ▸ ht, trivial⟩

theorem hosted {action : Hosted α} {answer : α}
    (hasks : ∀ h, ∀ r ∈ (action.run h).requests files, E r.path)
    (htold : ∀ h : Host, h.Truthful files → Host.Told files h answer ((action.run h).run files)) :
    Seeks files E (hosted action) (· = answer) := by
  intro p ht
  rw [course_hosted]
  refine ⟨hasks p.host, ?_⟩
  rintro _ _ ⟨⟩
  exact ⟨(htold p.host ht).truthful, (htold p.host ht).answer⟩

theorem exists? {path : String} (hpath : E path) :
    Seeks files E (Loading.hosted (Host.exists? path)) (· = (files path).isSome) := by
  refine hosted (fun h r hr ↦ ?_) fun h ht ↦ Host.told_exists ht path
  rw [Host.path_of_mem_requests_exists hr]
  exact hpath

theorem sourceFile {path : String} (hpath : E path) (target : LanguageTarget) :
    Seeks files E (Loading.hosted (Host.sourceFile path target))
      (· = (files path).map fun bs ↦ ⟨path, Host.textOf bs, target⟩) := by
  refine hosted (fun h r hr ↦ ?_) fun h ht ↦ Host.told_sourceFile ht path target
  rw [Host.requests_sourceFile] at hr
  rw [Host.path_of_mem_requests_load hr]
  exact hpath

/-- An import is looked for where it may lead. -/
theorem resolve {importer specifier : String}
    (hprobes : ∀ path ∈ probes importer specifier, E path) :
    Seeks files E (resolve importer specifier) (· = resolved files importer specifier) := by
  simp only [probes] at hprobes
  rw [Loading.resolve]
  simp only [resolved]
  split
  · exact pure rfl
  · next hextension =>
      rw [if_neg hextension] at hprobes
      refine bind (exists? (hprobes _ (.head _))) ?_
      rintro _ rfl
      split
      · exact pure rfl
      · refine bind (exists? (hprobes _ (.tail _ (.head _)))) ?_
        rintro _ rfl
        split
        · exact pure rfl
        · exact pure rfl

/-- Loading asks about what is sought if it loads what is wanted. -/
theorem closed (options : CompileOptions) (root : String) :
    Closed (fun m ↦ Seeks files (Sought files options root) m fun _ ↦ True)
      (Wanted files options root) (Stands files options root) where
  pure _ := pure trivial
  throw := throw
  bind hm hf := bind hm fun a _ ↦ hf a
  look _ hf := bind get fun p _ ↦ hf p
  note _ _ := modify fun _ ↦ rfl
  keep _ := modify fun _ ↦ rfl
  sourceFile target hpath hf := by
    refine bind (sourceFile hpath.sought target) fun source hsource ↦ hf source ?_
    rintro s tree rfl htree i hi
    obtain ⟨bs, hfile, rfl⟩ := Option.map_eq_some_iff.mp hsource.symm
    exact ⟨hpath.belongs (Option.isSome_iff_exists.mpr ⟨bs, hfile⟩), bs, tree, hfile, htree, hi⟩
  resolve hi hf := by
    refine bind (resolve fun path hpath ↦ .inr ⟨_, _, hi, hpath⟩) fun target htarget ↦ ?_
    exact hf target fun path hpath ↦ hi.wanted (htarget.symm.trans hpath)

end Seeks

end Loading

variable {files : String → Option Bytes} {options : CompileOptions} {depth : Nat} {root : String}

/-- What a compile asks about is the library, the root or what an import of its files may lead
to. -/
theorem sought_of_mem_requests {r : Request}
    (hr : r ∈ (compile options depth root).requests files) :
    Sought files options root r.path := by
  have hseeks : Loading.Seeks files (Sought files options root)
      (Program.demandAll .plain options depth root) fun _ ↦ True :=
    (Loading.Seeks.closed options root).demandAll .plain depth .library .self
  obtain ⟨hasks, -⟩ := hseeks ⟨.start options, .empty, []⟩ (Host.truthful_start options)
  rw [Loading.course] at hasks
  rw [requests_compile, Program.load_eq, Dialogue.requests_bind, Program.rootPath_plain,
    List.mem_append] at hr
  rcases hr with hr | hr
  · exact hasks r hr
  · split at hr
    · cases hr
    · cases hr

/-! ## No import is passed over -/

/-- A program consists of the same files wherever what is asked about is the same. -/
theorem Program.followsImports_of_agree {files files' : String → Option Bytes} {program : Program}
    {host : Host} (hrun : (load .plain depth root (.start options)).run files = .ok (program, host))
    (hagree : ∀ r ∈ (load .plain depth root (.start options)).requests files,
      files' r.path = files r.path) :
    program.FollowsImports files' options.target (starts options root) := by
  have hrun' : (load .plain depth root (.start options)).run files' = .ok (program, host) :=
    (congrArg Prod.fst (Dialogue.course_congr fun r hr ↦ .of_eq (hagree r hr))).trans hrun
  obtain ⟨t, hwalk, rfl, -⟩ := walk_load (Host.truthful_start options) hrun'
  exact followsImports_ofTrail hwalk

/-- A compile asks about each import of a file of its program. -/
theorem exists_request_of_import {importer : String} {i : Import} {compiled : Compiled}
    (hrun : (compile options depth root).run files = .ok compiled)
    (hi : Stands files options root importer i) :
    ∃ r ∈ (compile options depth root).requests files, r.path ∈ probes importer i.specifier := by
  obtain ⟨program, host, hload, -⟩ := run_compile_eq_ok_iff.mp hrun
  rw [requests_compile]
  refine Classical.byContradiction fun hnot ↦ ?_
  obtain ⟨path, hpath, hfirst⟩ := exists_first_probe importer i.specifier
  -- What nobody asks about can be there or not; the program has the same files either way.
  have hfollows (reply : Option Bytes) : program.FollowsImports (Function.update files path reply)
      options.target (starts options root) := by
    refine Program.followsImports_of_agree hload fun r hr ↦ Function.update_of_ne ?_ _ _
    rintro rfl
    exact hnot ⟨r, hr, hpath⟩
  obtain ⟨hbelongs, bs, tree, hfile, htree, hi⟩ := hi
  have hself : program.FollowsImports files options.target (starts options root) :=
    Program.followsImports_of_agree hload fun _ _ ↦ rfl
  obtain ⟨f, hf, rfl⟩ := List.mem_map.mp ((hself.mem_paths importer).mpr hbelongs)
  obtain ⟨bs', hfile', hsource, htree'⟩ := hself.tree f hf
  obtain rfl := Option.some.inj (hfile'.symm.trans hfile)
  rw [hsource] at htree'
  obtain rfl := Option.some.inj (htree'.symm.trans htree)
  have hthere : path ∈ program.paths := by
    obtain ⟨bs, hfile, hsource, htree⟩ := (hfollows (some [])).tree f hf
    rw [hsource] at htree
    refine (hfollows (some [])).mem_of_imports (List.mem_map_of_mem hf)
      ⟨bs, f.tree, hfile, htree, List.mem_filterMap.mpr ⟨i, hi, hfirst _ ?_⟩, ?_⟩
    · rw [Function.update_self]
      rfl
    · rw [Function.update_self]
      rfl
  obtain ⟨f', hf', rfl⟩ := List.mem_map.mp hthere
  obtain ⟨bs, hnone, -⟩ := (hfollows none).tree f' hf'
  rw [Function.update_self] at hnone
  cases hnone

end PipedCompiler.Compile
