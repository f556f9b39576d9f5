import PipedCompiler.Proofs.Compile.Depth

/-!
# What loading asks

Loading is made of a few steps, so what holds of these, and when they are put together, holds of it
as a whole.  All that it asks is what a host asks when it is asked about one path; so what holds
between a host, its questions and the host that it becomes carries over from single paths to whole
programs.
-/

namespace PipedCompiler.Compile

open PipedCompiler.Text PipedCompiler.Bridge PipedCompiler.Language

namespace Dialogue

variable {α γ : Type} (files : String → Option Bytes)

@[simp] theorem requests_done (a : α) : (done a).requests files = [] := rfl

@[simp] theorem requests_map (f : α → γ) (d : Dialogue α) :
    (f <$> d).requests files = d.requests files := by
  rw [map_eq_pure_bind, bind_eq, requests_bind, pure_eq, requests_done, List.append_nil]

end Dialogue

/-- A file as a source is asked for just as its text is. -/
theorem Host.requests_sourceFile (files : String → Option Bytes) (h : Host) (path : String)
    (target : LanguageTarget) :
    ((Host.sourceFile path target).run h).requests files =
      ((Host.load path).run h).requests files := by
  simp [Host.sourceFile]

/-! ## What holds of all loading -/

namespace Loading

/-- What asking for single files has, looking for an import has. -/
theorem resolve_of_exists {P : ∀ {α : Type}, Loading α → Prop}
    (pure : ∀ {α : Type} (a : α), P (pure a))
    (bind : ∀ {α γ : Type} {m : Loading α} {f : α → Loading γ}, P m → (∀ a, P (f a)) →
      P (m >>= f))
    (hexists : ∀ path, P (hosted (Host.exists? path))) (importer specifier : String) :
    P (resolve importer specifier) := by
  rw [resolve]
  dsimp only
  split
  · exact pure _
  · refine bind (hexists _) fun found ↦ ?_
    cases found with
    | true => exact pure _
    | false =>
        refine bind (hexists _) fun found ↦ ?_
        cases found with
        | true => exact pure _
        | false => exact pure _

/-- Whether a property of steps of loading is kept when they are put together, and the steps that
loading is made of have it: `Wanted` says which files may be loaded, and `Stands` which imports may
be followed. -/
structure Closed (P : ∀ {α : Type}, Loading α → Prop) (Wanted : String → Prop)
    (Stands : String → Import → Prop) : Prop where
  pure : ∀ {α : Type} (a : α), P (pure a)
  throw : ∀ {α : Type} (halt : Halt), P (throw halt : Loading α)
  bind : ∀ {α γ : Type} {m : Loading α} {f : α → Loading γ}, P m → (∀ a, P (f a)) → P (m >>= f)
  /-- Loading looks at nothing but what has been found. -/
  look : ∀ {γ : Type} {f : Progress → Loading γ},
    (∀ p p', p.found = p'.found → f p = f p') → (∀ p, P (f p)) → P (get >>= f)
  note : ∀ key found, P (note key found)
  keep : ∀ f : LoadedFile, P (modify fun p ↦ { p with files := f :: p.files })
  /-- The imports of a file that may be loaded may be followed. -/
  sourceFile : ∀ {γ : Type} {path : String} {f : Option SourceFile → Loading γ}
    (target : LanguageTarget), Wanted path →
      (∀ source, (∀ s tree, source = some s → SyntaxTree.ofText? s.chars = some tree →
        ∀ i ∈ tree.imports, Stands path i) → P (f source)) →
      P (hosted (Host.sourceFile path target) >>= f)
  /-- Where an import leads to that may be followed, there may be loaded. -/
  resolve : ∀ {γ : Type} {importer : String} {i : Import} {f : Option String → Loading γ},
    Stands importer i →
      (∀ target, (∀ path, target = some path → Wanted path) → P (f target)) →
      P (resolve importer i.specifier >>= f)

namespace Closed

variable {P : ∀ {α : Type}, Loading α → Prop} {Wanted : String → Prop}
variable {Stands : String → Import → Prop}

theorem loadImports (hP : Closed P Wanted Stands) {load : String → Loading Bool}
    (hload : ∀ path, Wanted path → P (load path)) {importer : String} {is : List Import}
    (his : ∀ i ∈ is, Stands importer i) : P (loadImports load importer is) := by
  induction is with
  | nil => exact hP.pure _
  | cons i is ih =>
      rw [List.forall_mem_cons] at his
      rw [loadImports_cons]
      refine hP.resolve his.1 fun target htarget ↦ ?_
      refine hP.bind ?_ fun found ↦ hP.bind (ih his.2) fun others ↦ hP.pure _
      cases target with
      | none => exact hP.pure _
      | some path => exact hload path (htarget path rfl)

theorem load (hP : Closed P Wanted Stands) (place : Surroundings) (target : LanguageTarget)
    (depth : Nat) {path : String} (hpath : Wanted path) : P (load place target depth path) := by
  induction depth generalizing path with
  | zero =>
      rw [Loading.load]
      refine hP.look (fun p p' h ↦ by rw [h]) fun p ↦ ?_
      cases p.found.get? (place.canonicalName path) with
      | some found => exact hP.pure _
      | none => exact hP.throw _
  | succ depth ih =>
      rw [Loading.load]
      refine hP.look (fun p p' h ↦ by rw [h]) fun p ↦ ?_
      cases p.found.get? (place.canonicalName path) with
      | some found => exact hP.pure _
      | none =>
          refine hP.bind (hP.note _ _) fun _ ↦ hP.sourceFile target hpath fun source hsource ↦ ?_
          cases source with
          | none => exact hP.bind (hP.note _ _) fun _ ↦ hP.pure _
          | some source =>
              dsimp only
              cases htree : SyntaxTree.ofText? source.chars with
              | none => exact hP.throw _
              | some tree =>
                  have himports := hP.loadImports (fun _ ↦ ih) (hsource source tree rfl htree)
                  exact hP.bind himports fun _ ↦ hP.bind (hP.keep _) fun _ ↦ hP.pure _

theorem demand (hP : Closed P Wanted Stands) (place : Surroundings) (target : LanguageTarget)
    (depth : Nat) {path : String} (hpath : Wanted path) :
    P (Program.demand place target depth path) :=
  hP.bind (hP.load place target depth hpath) fun _ ↦ hP.pure _

/-- What the steps of loading have, loading a program has. -/
theorem demandAll (hP : Closed P Wanted Stands) (place : Surroundings) {options : CompileOptions}
    (depth : Nat) {path : String}
    (hlibrary : options.omitsDefaultLibrary = false → Wanted options.libraryPath)
    (hpath : Wanted path) : P (Program.demandAll place options depth path) := by
  refine hP.bind ?_ fun library ↦
    hP.bind (hP.demand place _ depth hpath) fun _ ↦ hP.pure _
  rw [Program.demandLibrary]
  cases homits : options.omitsDefaultLibrary with
  | true => exact hP.pure _
  | false => exact hP.demand place _ depth (hlibrary homits)

end Closed

end Loading

/-! ## Logs -/

/-- Whether a relation between a host, questions and the host after them can be put together, and
holds of all that a host is asked about one path. -/
structure Accounts (files : String → Option Bytes) (Q : Host → List Request → Host → Prop) :
    Prop where
  nothing : ∀ h, Q h [] h
  append : ∀ {h h' h'' rs rs'}, Q h rs h' → Q h' rs' h'' → Q h (rs ++ rs') h''
  load : ∀ path h,
    Q h (((Host.load path).run h).requests files) (((Host.load path).run h).run files).2
  exists? : ∀ path h,
    Q h (((Host.exists? path).run h).requests files) (((Host.exists? path).run h).run files).2

namespace Loading

variable {α γ : Type} {files : String → Option Bytes} {Q : Host → List Request → Host → Prop}

/-- Letting a host do something asks just what the host asks. -/
theorem course_hosted (action : Hosted α) (p : Progress) :
    course files (hosted action) p =
      (.ok (((action.run p.host).run files).1,
        { p with host := ((action.run p.host).run files).2 }),
        (action.run p.host).requests files) := by
  show Dialogue.course files ((action.run p.host).bind _) = _
  rw [Dialogue.course_bind]
  simp [Dialogue.course]

/-- Whether a relation holds between the host before a step of loading, what it asks and the host
after it. -/
def Logs (files : String → Option Bytes) (Q : Host → List Request → Host → Prop)
    (m : Loading α) : Prop :=
  ∀ p, ∃ host, Q p.host (course files m p).2 host ∧
    ∀ a p', (course files m p).1 = .ok (a, p') → p'.host = host

namespace Logs

theorem bind (hQ : Accounts files Q) {m : Loading α} {f : α → Loading γ} (hm : Logs files Q m)
    (hf : ∀ a, Logs files Q (f a)) : Logs files Q (m >>= f) := by
  intro p
  obtain ⟨host, hlog, hhost⟩ := hm p
  rw [course_bind]
  rcases hcourse : course files m p with ⟨halt | ⟨a, p₁⟩, rs⟩
  · -- A halt ends the questions, but those before it have been asked.
    rw [hcourse] at hlog
    refine ⟨host, hlog, fun a p' h ↦ ?_⟩
    cases h
  · rw [hcourse] at hlog hhost
    obtain rfl := hhost a p₁ rfl
    obtain ⟨host, hlog', hhost'⟩ := hf a p₁
    exact ⟨host, hQ.append hlog hlog', hhost'⟩

theorem pure (hQ : Accounts files Q) (a : α) : Logs files Q (pure a) := by
  intro p
  refine ⟨p.host, hQ.nothing p.host, ?_⟩
  rintro _ _ ⟨⟩
  rfl

theorem look (hQ : Accounts files Q) {f : Progress → Loading γ} (hf : ∀ p, Logs files Q (f p)) :
    Logs files Q (get >>= f) := by
  intro p
  obtain ⟨host, hlog, hhost⟩ := hf p p
  rw [course_bind]
  exact ⟨host, hQ.append (hQ.nothing p.host) hlog, hhost⟩

theorem throw (hQ : Accounts files Q) (halt : Halt) :
    Logs files Q (throw halt : Loading α) := by
  intro p
  refine ⟨p.host, hQ.nothing p.host, ?_⟩
  intro a p' h
  cases h

/-- What changes nothing about the host asks nothing. -/
theorem modify (hQ : Accounts files Q) {f : Progress → Progress} (hf : ∀ p, (f p).host = p.host) :
    Logs files Q (modify f) := by
  intro p
  refine ⟨p.host, hQ.nothing p.host, ?_⟩
  rintro _ _ ⟨⟩
  exact hf p

theorem hosted {action : Hosted α}
    (h : ∀ h, Q h ((action.run h).requests files) ((action.run h).run files).2) :
    Logs files Q (hosted action) := by
  intro p
  rw [course_hosted]
  refine ⟨_, h p.host, ?_⟩
  rintro _ _ ⟨⟩
  rfl

theorem resolve (hQ : Accounts files Q) (importer specifier : String) :
    Logs files Q (resolve importer specifier) :=
  resolve_of_exists (P := Logs files Q) (pure hQ) (bind hQ)
    (fun path ↦ hosted (hQ.exists? path)) importer specifier

theorem sourceFile (hQ : Accounts files Q) (path : String) (target : LanguageTarget) :
    Logs files Q (Loading.hosted (Host.sourceFile path target)) := by
  refine .hosted fun h ↦ ?_
  rw [Host.requests_sourceFile, Host.run_sourceFile]
  exact hQ.load path h

theorem closed (hQ : Accounts files Q) :
    Closed (Logs files Q) (fun _ ↦ True) fun _ _ ↦ True where
  pure := .pure hQ
  throw := .throw hQ
  bind := .bind hQ
  look _ := .look hQ
  note _ _ := .modify hQ fun _ ↦ rfl
  keep _ := .modify hQ fun _ ↦ rfl
  sourceFile target _ hf := .bind hQ (.sourceFile hQ _ target) fun source ↦
    hf source fun _ _ _ _ _ _ ↦ trivial
  resolve _ hf := .bind hQ (.resolve hQ _ _) fun target ↦ hf target fun _ _ ↦ trivial

end Logs

end Loading

/-- What holds of all that a host is asked about single paths holds of a whole program. -/
theorem Accounts.load_program {files : String → Option Bytes}
    {Q : Host → List Request → Host → Prop} (hQ : Accounts files Q) (place : Surroundings)
    (depth : Nat) (root : String) (h : Host) :
    ∃ host, Q h ((Program.load place depth root h).requests files) host ∧
      ∀ program host', (Program.load place depth root h).run files = .ok (program, host') →
        host' = host := by
  have hlogs : Loading.Logs files Q
      (Program.demandAll place h.options depth (Program.rootPath place root)) :=
    (Loading.Logs.closed hQ).demandAll place depth (fun _ ↦ trivial) trivial
  obtain ⟨host, hlog, hhost⟩ := hlogs ⟨h, .empty, []⟩
  rw [Loading.course] at hlog hhost
  rw [Program.load_eq, Dialogue.run_bind, Dialogue.requests_bind]
  refine ⟨host, ?_, ?_⟩
  · split
    · rwa [Dialogue.requests_done, List.append_nil]
    · rwa [Dialogue.requests_done, List.append_nil]
  · intro program host' hrun
    split at hrun
    · next missing p hdemand =>
      obtain ⟨-, rfl⟩ := Prod.mk.inj (Except.ok.inj hrun)
      exact hhost missing p hdemand
    · cases hrun

/-- A compile asks no more than loading its program does. -/
theorem requests_compile (files : String → Option Bytes) (options : CompileOptions) (depth : Nat)
    (root : String) :
    (compile options depth root).requests files =
      (Program.load .plain depth root (.start options)).requests files := by
  rw [compile, Dialogue.bind_eq, Dialogue.requests_bind]
  split
  · exact List.append_nil _
  · exact List.append_nil _

/-! ## Complaints -/

/-- What is said about the answer to a request, if that is not a text. -/
def complaintAbout? (files : String → Option Bytes) (r : Request) : Option Diagnostic :=
  match r.kind with
  | .contents => (files r.path).bind (Host.complaint? r.path)
  | .presence => none

@[simp] theorem filterMap_complaintAbout_contents (files : String → Option Bytes) (path : String) :
    [⟨.contents, path⟩].filterMap (complaintAbout? files) =
      ((files path).bind (Host.complaint? path)).toList := by
  rw [List.filterMap_cons, complaintAbout?]
  cases (files path).bind (Host.complaint? path) with
  | none => rfl
  | some d => rfl

/-- A host says what there is to say about the answers that it gets, in their order. -/
theorem accounts_complaints (files : String → Option Bytes) :
    Accounts files fun h rs h' ↦
      h'.diagnostics = h.diagnostics ++ rs.filterMap (complaintAbout? files) where
  nothing h := (List.append_nil _).symm
  append h h' := by rw [h', h, List.filterMap_append, List.append_assoc]
  load path h := by
    cases hknown : h.known.get? path with
    | some text =>
        rw [Host.load_known hknown]
        exact (List.append_nil _).symm
    | none =>
        rw [Host.load_new hknown]
        simp [Dialogue.requests, Dialogue.run, Host.hear]
  exists? path h := by
    cases hknown : h.known.get? path with
    | some text =>
        rw [Host.exists_known hknown]
        exact (List.append_nil _).symm
    | none =>
        rw [Host.exists_new hknown]
        split
        · cases hfile : files path with
          | none => simp [Dialogue.requests, Dialogue.run, Host.hear, hfile, complaintAbout?]
          | some bs => simp [Dialogue.requests, Dialogue.run, hfile, complaintAbout?]
        · simp [Dialogue.requests, Dialogue.run, Host.hear]

/-! ## Questions that are not understood -/

/-- A host whose parent cannot be asked if a file exists asks what it holds. -/
theorem accounts_contents (files : String → Option Bytes) :
    Accounts files fun h rs h' ↦ h'.options = h.options ∧
      (h.options.asksExistence = false → ∀ r ∈ rs, r.kind = .contents) where
  nothing h := ⟨rfl, fun _ ↦ List.forall_mem_nil _⟩
  append h h' := by
    refine ⟨h'.1.trans h.1, fun hasks r hr ↦ ?_⟩
    rcases List.mem_append.mp hr with hr | hr
    · exact h.2 hasks r hr
    · exact h'.2 (by rw [h.1, hasks]) r hr
  load path h := by
    cases hknown : h.known.get? path with
    | some text =>
        rw [Host.load_known hknown]
        exact ⟨rfl, fun _ ↦ List.forall_mem_nil _⟩
    | none =>
        rw [Host.load_new hknown]
        simp [Dialogue.requests, Dialogue.run, Host.hear]
  exists? path h := by
    cases hknown : h.known.get? path with
    | some text =>
        rw [Host.exists_known hknown]
        exact ⟨rfl, fun _ ↦ List.forall_mem_nil _⟩
    | none =>
        rw [Host.exists_new hknown]
        cases hasks : h.options.asksExistence with
        | true =>
            refine ⟨?_, by rintro ⟨⟩⟩
            cases hfile : files path with
            | none => simp [Dialogue.run, Host.hear, hfile]
            | some bs => simp [Dialogue.run, hfile]
        | false => simp [Dialogue.requests, Dialogue.run, Host.hear]

end PipedCompiler.Compile
