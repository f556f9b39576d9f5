import PipedCompiler.Proofs.Compile.Sought

/-!
# Chains of imports

Whatever a source answers, even if it contradicts itself, loading keeps files of different canonical
names, and each of them for a reason: it is where loading was to start, or an import of another file
that is kept may stand for it.
-/

namespace PipedCompiler.Compile

open PipedCompiler.Text PipedCompiler.Bridge PipedCompiler.Language

/-! ## What dialogues come to -/

section Dialogues

variable {α γ : Type}

/-- Whether what a dialogue comes to has a property, whatever is answered. -/
def Dialogue.Always (post : α → Prop) : Dialogue α → Prop
  | .done a => post a
  | .contents _ next => ∀ reply, (next reply).Always post
  | .presence _ next => ∀ reply, (next reply).Always post

namespace Dialogue

theorem Always.mono {post post' : α → Prop} {d : Dialogue α} (h : d.Always post)
    (hpost : ∀ a, post a → post' a) : d.Always post' := by
  induction d with
  | done a => exact hpost a h
  | contents path next ih => exact fun reply ↦ ih reply (h reply)
  | presence path next ih => exact fun reply ↦ ih reply (h reply)

theorem always_true (d : Dialogue α) : d.Always fun _ ↦ True := by
  induction d with
  | done a => exact trivial
  | contents path next ih => exact ih
  | presence path next ih => exact ih

theorem always_bind {post : γ → Prop} {d : Dialogue α} {f : α → Dialogue γ} :
    (d.bind f).Always post ↔ d.Always fun a ↦ (f a).Always post := by
  induction d with
  | done a => exact Iff.rfl
  | contents path next ih => exact forall_congr' fun reply ↦ ih reply
  | presence path next ih => exact forall_congr' fun reply ↦ ih reply

/-- Over any source, a dialogue comes to what it always comes to. -/
theorem Always.runOver {post : α → Prop} {d : Dialogue α} (h : d.Always post) {β : Type}
    [Source β] {b b' : β} {a : α} (hrun : d.runOver b = (.ok a, b')) : post a := by
  induction d generalizing b with
  | done a' =>
      obtain ⟨ha, -⟩ := Prod.mk.inj hrun
      exact Except.ok.inj ha ▸ h
  | contents path next ih =>
      rw [Dialogue.runOver] at hrun
      split at hrun
      · exact ih _ (h _) hrun
      · cases hrun
  | presence path next ih =>
      rw [Dialogue.runOver] at hrun
      split at hrun
      · exact ih _ (h _) hrun
      · cases hrun

end Dialogue

end Dialogues

namespace Loading

variable {α γ : Type}

/-- Whether what a step of loading comes to has a property, whatever is answered. -/
def Leads (m : Loading α) (post : α → Progress → Prop) (p : Progress) : Prop :=
  (m.run p).run.Always fun r ↦ ∀ a p', r = .ok (a, p') → post a p'

namespace Leads

variable {m : Loading α} {f : α → Loading γ} {post post' : α → Progress → Prop}
variable {post'' : γ → Progress → Prop} {p : Progress}

theorem mono (h : Leads m post p) (hpost : ∀ a p', post a p' → post' a p') : Leads m post' p :=
  Dialogue.Always.mono h fun _ hr a p' heq ↦ hpost a p' (hr a p' heq)

theorem bind (hm : Leads m post p) (hf : ∀ a p', post a p' → Leads (f a) post'' p') :
    Leads (m >>= f) post'' p := by
  rw [Leads, StateT.run_bind, ExceptT.run_bind, Dialogue.bind_eq, Dialogue.always_bind]
  refine Dialogue.Always.mono hm fun r hr ↦ ?_
  rcases r with halt | ⟨a, p'⟩
  · rintro _ _ ⟨⟩
  · exact hf a p' (hr a p' rfl)

theorem pure {a : α} (h : post a p) : Leads (pure a) post p := by
  rintro _ _ ⟨⟩
  exact h

theorem throw (halt : Halt) : Leads (throw halt : Loading α) post p := by
  rintro _ _ ⟨⟩

theorem get_bind {f : Progress → Loading γ} (h : Leads (f p) post'' p) :
    Leads (get >>= f) post'' p :=
  h

theorem modify_bind {g : Progress → Progress} {f : Unit → Loading γ}
    (h : Leads (f ()) post'' (g p)) : Leads (modify g >>= f) post'' p :=
  h

/-- What the host is told changes nothing but the host. -/
theorem hosted {action : Hosted α} {Q : α → Prop}
    (h : (action.run p.host).Always fun r ↦ Q r.1) :
    Leads (hosted action) (fun a p' ↦ Q a ∧ ∃ host, p' = { p with host }) p := by
  show Dialogue.Always _ ((action.run p.host).bind _)
  rw [Dialogue.always_bind]
  refine h.mono fun r hr ↦ ?_
  rintro _ _ ⟨⟩
  exact ⟨hr, _, rfl⟩

/-- An import leads to one of the paths that it may stand for. -/
theorem resolve (importer specifier : String) :
    Leads (resolve importer specifier) (fun target p' ↦
      (∀ path ∈ target, path ∈ probes importer specifier) ∧ ∃ host, p' = { p with host }) p := by
  simp only [Loading.resolve, probes]
  split
  · exact pure ⟨by simp, p.host, rfl⟩
  refine (hosted (Q := fun _ ↦ True) (Dialogue.always_true _)).bind ?_
  rintro found _ ⟨-, host, rfl⟩
  cases found with
  | true => exact pure ⟨by simp, host, rfl⟩
  | false =>
      refine (hosted (Q := fun _ ↦ True) (Dialogue.always_true _)).bind ?_
      rintro found _ ⟨-, host', rfl⟩
      cases found with
      | true => exact pure ⟨by simp, host', rfl⟩
      | false => exact pure ⟨by simp, host', rfl⟩

/-- A file is as its path says. -/
theorem sourceFile (path : String) (target : LanguageTarget) :
    Leads (Loading.hosted (Host.sourceFile path target)) (fun (source : Option SourceFile) p' ↦
      (∀ s ∈ source, s.path = path) ∧ ∃ host, p' = { p with host }) p := by
  refine hosted (Q := fun source : Option SourceFile ↦ ∀ s ∈ source, s.path = path) ?_
  rw [Host.sourceFile, StateT.run_bind, Dialogue.bind_eq, Dialogue.always_bind]
  refine (Dialogue.always_true _).mono fun r _ ↦ ?_
  rintro s hs
  obtain ⟨chars, -, rfl⟩ := Option.map_eq_some_iff.mp hs
  rfl

end Leads

end Loading

/-! ## Chains -/

/-- Whether chains of imports of some kind, all of them in these files, lead from a start to a
path. -/
inductive Chained (files : List LoadedFile) (kind : Import → Prop) (start : String → Prop) :
    String → Prop
  | start {path : String} (h : start path) : Chained files kind start path
  | step {f : LoadedFile} {i : Import} {path : String} (hf : f ∈ files)
    (h : Chained files kind start f.source.path) (hi : i ∈ f.tree.imports) (hkind : kind i)
    (hpath : path ∈ probes f.source.path i.specifier) : Chained files kind start path

theorem Chained.mono {files files' : List LoadedFile} {kind : Import → Prop}
    {start start' : String → Prop} {path : String} (h : Chained files kind start path)
    (hfiles : files ⊆ files') (hstart : ∀ path, start path → Chained files' kind start' path) :
    Chained files' kind start' path := by
  induction h with
  | start h => exact hstart _ h
  | step hf _ hi hkind hpath ih => exact .step (hfiles hf) ih hi hkind hpath

namespace Loading

/-- Whether loading has come from one point to another by gathering these files, the last one first:
they have different canonical names, none of which had been looked for, and chains of imports lead
to them from a start. -/
structure Gathers (canonicalName : String → String) (start : String → Prop)
    (new : List LoadedFile) (p p' : Progress) : Prop where
  files : p'.files = new ++ p.files
  found : ∀ key, p.found.contains key = true → p'.found.contains key = true
  nodup : (new.map fun f ↦ canonicalName f.source.path).Nodup
  fresh : ∀ f ∈ new, p.found.contains (canonicalName f.source.path) = false
  noted : ∀ f ∈ new, p'.found.contains (canonicalName f.source.path) = true
  chained : ∀ f ∈ new, Chained new (fun _ ↦ True) start f.source.path

section Gathers

variable {canonicalName : String → String} {start start' : String → Prop}
variable {new new' : List LoadedFile} {p p' p'' : Progress} {path : String}

/-- Where nothing is gathered, more may have been looked for. -/
theorem Gathers.nothing (hfiles : p'.files = p.files)
    (hfound : ∀ key, p.found.contains key = true → p'.found.contains key = true) :
    Gathers canonicalName start [] p p' :=
  ⟨hfiles, hfound, List.nodup_nil, nofun, nofun, nofun⟩

theorem Gathers.mono (h : Gathers canonicalName start new p p')
    (hstart : ∀ path, start path → start' path) : Gathers canonicalName start' new p p' :=
  { h with chained := fun f hf ↦
      (h.chained f hf).mono (List.Subset.refl _) fun path hpath ↦ .start (hstart path hpath) }

/-- What the host has been told does not count. -/
theorem Gathers.of_hosted {host : Host}
    (h : Gathers canonicalName start new { p with host } p') :
    Gathers canonicalName start new p p' :=
  ⟨h.files, h.found, h.nodup, h.fresh, h.noted, h.chained⟩

theorem Gathers.trans (h : Gathers canonicalName start new p p')
    (h' : Gathers canonicalName start new' p' p'') :
    Gathers canonicalName start (new' ++ new) p p'' where
  files := by rw [h'.files, h.files, List.append_assoc]
  found key hkey := h'.found key (h.found key hkey)
  nodup := by
    rw [List.map_append]
    refine List.nodup_append.mpr ⟨h'.nodup, h.nodup, ?_⟩
    rintro _ hkey' key hkey rfl
    obtain ⟨f', hf', rfl⟩ := List.mem_map.mp hkey'
    obtain ⟨f, hf, heq⟩ := List.mem_map.mp hkey
    have hnoted := h.noted f hf
    rw [heq, h'.fresh f' hf'] at hnoted
    cases hnoted
  fresh f hf := by
    rcases List.mem_append.mp hf with hf | hf
    · rw [← Bool.not_eq_true]
      intro hkey
      have hnot := h'.fresh f hf
      rw [h.found _ hkey] at hnot
      cases hnot
    · exact h.fresh f hf
  noted f hf := by
    rcases List.mem_append.mp hf with hf | hf
    · exact h'.noted f hf
    · exact h'.found _ (h.noted f hf)
  chained f hf := by
    rcases List.mem_append.mp hf with hf | hf
    · exact (h'.chained f hf).mono (List.subset_append_left _ _) fun _ ↦ .start
    · exact (h.chained f hf).mono (List.subset_append_right _ _) fun _ ↦ .start

/-- A file is gathered after what its imports lead to, if it is noted before. -/
theorem Gathers.visit {f : LoadedFile} {host : Host}
    (hpath : f.source.path = path) (hnew : p.found.contains (canonicalName path) = false)
    (h : Gathers canonicalName
      (fun imported ↦ ∃ i ∈ f.tree.imports, imported ∈ probes path i.specifier) new
      ⟨host, p.found.insert (canonicalName path) true, p.files⟩ p') :
    Gathers canonicalName (· = path) (f :: new) p { p' with files := f :: p'.files } := by
  have hfound (key : String) (hkey : p.found.contains key = true) :
      p'.found.contains key = true := h.found key (by simp [hkey])
  have hself : p'.found.contains (canonicalName path) = true := h.found _ (by simp)
  have hfresh : ∀ f' ∈ new, canonicalName f'.source.path ≠ canonicalName path ∧
      p.found.contains (canonicalName f'.source.path) = false := by
    intro f' hf'
    have hnot := h.fresh f' hf'
    rw [Table.contains_insert, Bool.or_eq_false_iff, decide_eq_false_iff_not] at hnot
    exact ⟨Ne.symm hnot.1, hnot.2⟩
  subst hpath
  refine ⟨by rw [h.files]; rfl, hfound, ?_, ?_, ?_, ?_⟩
  · rw [List.map_cons, List.nodup_cons]
    refine ⟨fun hmem ↦ ?_, h.nodup⟩
    obtain ⟨f', hf', heq⟩ := List.mem_map.mp hmem
    exact (hfresh f' hf').1 heq
  · exact List.forall_mem_cons.mpr ⟨hnew, fun f' hf' ↦ (hfresh f' hf').2⟩
  · exact List.forall_mem_cons.mpr ⟨hself, h.noted⟩
  · refine List.forall_mem_cons.mpr ⟨.start rfl, fun f' hf' ↦ ?_⟩
    refine (h.chained f' hf').mono (List.subset_cons_self _ _) ?_
    rintro imported ⟨i, hi, hprobe⟩
    exact .step List.mem_cons_self (.start rfl) hi trivial hprobe

end Gathers

section Load

variable {place : Surroundings} {load : String → Loading Bool}

/-- Following imports one after the other gathers what they lead to. -/
theorem leads_loadImports {canonicalName : String → String}
    (hload : ∀ path p, Leads (load path) (fun _ p' ↦
      ∃ new, Gathers canonicalName (· = path) new p p') p)
    (importer : String) (is : List Import) (p : Progress) :
    Leads (loadImports load importer is) (fun _ p' ↦ ∃ new, Gathers canonicalName
      (fun imported ↦ ∃ i ∈ is, imported ∈ probes importer i.specifier) new p p') p := by
  induction is generalizing p with
  | nil => exact .pure ⟨[], .nothing rfl fun _ h ↦ h⟩
  | cons i is ih =>
      rw [loadImports_cons]
      refine (Leads.resolve importer i.specifier).bind ?_
      rintro target _ ⟨htarget, host, rfl⟩
      have hfollow : Leads (follow load target) (fun _ p' ↦ ∃ new, Gathers canonicalName
          (fun imported ↦ imported ∈ probes importer i.specifier) new p p') { p with host } := by
        cases target with
        | none => exact .pure ⟨[], .nothing rfl fun _ h ↦ h⟩
        | some path =>
            refine (hload path _).mono ?_
            rintro _ p' ⟨new, hnew⟩
            refine ⟨new, .of_hosted (hnew.mono ?_)⟩
            rintro _ rfl
            exact htarget _ rfl
      refine hfollow.bind ?_
      rintro found p₁ ⟨new, hnew⟩
      refine (ih p₁).bind ?_
      rintro others p₂ ⟨new', hnew'⟩
      refine .pure ⟨new' ++ new, ?_⟩
      refine (hnew.mono fun imported himported ↦ ?_).trans (hnew'.mono ?_)
      · exact ⟨i, List.mem_cons_self, himported⟩
      · rintro imported ⟨i', hi', himported⟩
        exact ⟨i', List.mem_cons_of_mem _ hi', himported⟩

/-- Loading a file gathers it and what chains of imports lead to from it. -/
theorem leads_load (place : Surroundings) (target : LanguageTarget) (depth : Nat) (path : String)
    (p : Progress) :
    Leads (Loading.load place target depth path) (fun _ p' ↦
      ∃ new, Gathers place.canonicalName (· = path) new p p') p := by
  induction depth generalizing path p with
  | zero =>
      rw [Loading.load]
      refine .get_bind ?_
      cases p.found.get? (place.canonicalName path) with
      | some found => exact .pure ⟨[], .nothing rfl fun _ h ↦ h⟩
      | none => exact .throw _
  | succ depth ih =>
      rw [Loading.load]
      refine .get_bind ?_
      cases hknown : p.found.get? (place.canonicalName path) with
      | some found => exact .pure ⟨[], .nothing rfl fun _ h ↦ h⟩
      | none =>
          have hnew := Table.contains_eq_false_iff.mpr hknown
          refine .modify_bind ((Leads.sourceFile path target).bind ?_)
          rintro source _ ⟨hsource, host, rfl⟩
          cases source with
          | none => exact .modify_bind (.pure ⟨[], .nothing rfl fun key hkey ↦ by simp [hkey]⟩)
          | some source =>
              dsimp only
              cases SyntaxTree.ofText? source.chars with
              | none => exact .throw _
              | some tree =>
                  refine (leads_loadImports ih path tree.imports _).bind ?_
                  rintro unresolved p' ⟨new, hgathers⟩
                  exact .modify_bind (.pure ⟨_, .visit (f := ⟨source, tree, unresolved⟩)
                    (hsource source rfl) hnew hgathers⟩)

end Load

end Loading

/-! ## Programs -/

namespace Program

variable {place : Surroundings} {options : CompileOptions} {depth : Nat}

theorem leads_demand (place : Surroundings) (target : LanguageTarget) (depth : Nat) (path : String)
    (p : Progress) :
    Loading.Leads (demand place target depth path) (fun _ p' ↦
      ∃ new, Loading.Gathers place.canonicalName (· = path) new p p') p :=
  (Loading.leads_load place target depth path p).bind fun _ _ h ↦ .pure h

/-- Loading a program gathers what chains of imports lead to from the library and the root. -/
theorem leads_demandAll (path : String) (p : Progress) :
    Loading.Leads (demandAll place options depth path) (fun _ p' ↦ ∃ new,
      Loading.Gathers place.canonicalName (· ∈ starts options path) new p p') p := by
  have hlibrary : Loading.Leads (demandLibrary place options depth) (fun _ p' ↦ ∃ new,
      Loading.Gathers place.canonicalName (· ∈ starts options path) new p p') p := by
    rw [demandLibrary]
    cases homits : options.omitsDefaultLibrary with
    | true => exact .pure ⟨[], .nothing rfl fun _ h ↦ h⟩
    | false =>
        refine (leads_demand place _ depth _ p).mono ?_
        rintro _ p' ⟨new, h⟩
        refine ⟨new, h.mono ?_⟩
        rintro _ rfl
        simp [starts, homits]
  refine hlibrary.bind ?_
  rintro library p₁ ⟨new, h⟩
  refine (leads_demand place _ depth path p₁).bind ?_
  rintro main p₂ ⟨new', h'⟩
  refine .pure ⟨new' ++ new, h.trans (h'.mono ?_)⟩
  rintro _ rfl
  rw [starts]
  split <;> simp

/-- Whatever a source answers, the files of a program have different canonical names, and chains of
imports lead to each of them from the library or the root. -/
theorem chained_load {β : Type} [Source β] {root : String} {host host' : Host} {b b' : β}
    {program : Program}
    (hload : (load place depth root host).runOver b = (.ok (.ok (program, host')), b')) :
    program.root = rootPath place root ∧
      (program.paths.map place.canonicalName).Nodup ∧
      ∀ f ∈ program.files, Chained program.files (fun _ ↦ True)
        (· ∈ starts host.options program.root) f.source.path := by
  have halways : (load place depth root host).Always fun r ↦ ∀ program host',
      r = .ok (program, host') → program.root = rootPath place root ∧
        (program.paths.map place.canonicalName).Nodup ∧
        ∀ f ∈ program.files, Chained program.files (fun _ ↦ True)
          (· ∈ starts host.options program.root) f.source.path := by
    rw [load_eq, Dialogue.always_bind]
    refine Dialogue.Always.mono (leads_demandAll _ _) fun r hr ↦ ?_
    rcases r with halt | ⟨missing, p⟩
    · rintro _ _ ⟨⟩
    · obtain ⟨new, hnew⟩ := hr missing p rfl
      rintro _ _ ⟨⟩
      have hfiles : p.files = new := hnew.files.trans (List.append_nil new)
      rw [paths, List.map_map]
      dsimp only
      rw [hfiles]
      refine ⟨rfl, ?_, fun f hf ↦ ?_⟩
      · rw [List.map_reverse]
        exact List.pairwise_reverse.mpr (hnew.nodup.imp Ne.symm)
      · refine (hnew.chained f (List.mem_reverse.mp hf)).mono ?_ fun _ ↦ .start
        exact fun f hf ↦ List.mem_reverse.mpr hf
  exact halways.runOver hload program host' rfl

end Program

end PipedCompiler.Compile
