import PipedCompiler.Compile.Program
import PipedCompiler.Proofs.Compile.Host

/-!
# Loading

Loading follows imports from file to file, and every file that is there is followed once.  So chains
of imports are no longer than there are files, and a depth of more than that is as good as no bound.
-/

namespace PipedCompiler.Compile

open PipedCompiler.Text PipedCompiler.Bridge PipedCompiler.Language

namespace Loading

/-! ## What a step of loading comes to -/

section Outcome

variable {α γ : Type} (files : String → Option Bytes)

/-- What a step of loading comes to where the files are these. -/
def outcome (m : Loading α) (p : Progress) : Except Halt (α × Progress) :=
  (m.run p).run.run files

@[simp] theorem outcome_pure (a : α) (p : Progress) :
    outcome files (pure a) p = .ok (a, p) := rfl

@[simp] theorem outcome_bind (m : Loading α) (f : α → Loading γ) (p : Progress) :
    outcome files (m >>= f) p = (outcome files m p).bind fun r ↦ outcome files (f r.1) r.2 := by
  rw [outcome, StateT.run_bind, ExceptT.run_bind, Dialogue.bind_eq, Dialogue.run_bind]
  rw [outcome]
  rcases (m.run p).run.run files with halt | ⟨a, p'⟩
  · rfl
  · rfl

@[simp] theorem outcome_map (f : α → γ) (m : Loading α) (p : Progress) :
    outcome files (f <$> m) p = (outcome files m p).map fun r ↦ (f r.1, r.2) := by
  rw [map_eq_pure_bind, outcome_bind]
  rcases outcome files m p with halt | ⟨a, p'⟩
  · rfl
  · rfl

@[simp] theorem outcome_get (p : Progress) : outcome files get p = .ok (p, p) := rfl

@[simp] theorem outcome_modify (f : Progress → Progress) (p : Progress) :
    outcome files (modify f) p = .ok ((), f p) := rfl

@[simp] theorem outcome_note (key : String) (found : Bool) (p : Progress) :
    outcome files (note key found) p = .ok ((), { p with found := p.found.insert key found }) :=
  rfl

@[simp] theorem outcome_hosted (action : Hosted α) (p : Progress) :
    outcome files (hosted action) p =
      .ok (((action.run p.host).run files).1,
        { p with host := ((action.run p.host).run files).2 }) := by
  show Dialogue.run files ((action.run p.host).bind _) = _
  rw [Dialogue.run_bind]
  rfl

end Outcome

/-- One step after the other comes to something if both do. -/
theorem outcome_bind_eq_ok {α γ : Type} {files : String → Option Bytes} {m : Loading α}
    {f : α → Loading γ} {p : Progress} {r : γ × Progress} :
    outcome files (m >>= f) p = .ok r ↔
      ∃ a p₁, outcome files m p = .ok (a, p₁) ∧ outcome files (f a) p₁ = .ok r := by
  rw [outcome_bind]
  rcases outcome files m p with halt | ⟨a, p₁⟩
  · simp [Except.bind]
  · constructor
    · exact fun h ↦ ⟨a, p₁, rfl, h⟩
    · rintro ⟨_, _, ⟨⟩, h⟩
      exact h

/-! ## Where imports lead -/

/-- The file that an import leads to where the files are these; without its extension a path leads
to a source before it leads to declarations. -/
def resolved (files : String → Option Bytes) (importer specifier : String) : Option String :=
  let base := importBase importer.toList specifier.toList
  if hasExtension base then some (String.ofList base)
  else if (files (String.ofList base ++ ".ts")).isSome then some (String.ofList base ++ ".ts")
  else if (files (String.ofList base ++ ".d.ts")).isSome then some (String.ofList base ++ ".d.ts")
  else none

theorem outcome_resolve {files : String → Option Bytes} {p : Progress}
    (ht : p.host.Truthful files) (importer specifier : String) :
    ∃ host : Host, host.Truthful files ∧ host.options = p.host.options ∧
      outcome files (resolve importer specifier) p =
        .ok (resolved files importer specifier, { p with host }) := by
  simp only [resolve, resolved]
  generalize importBase importer.toList specifier.toList = base
  by_cases hextension : hasExtension base = true
  · refine ⟨p.host, ht, rfl, ?_⟩
    simp [hextension]
  obtain ⟨hsource, ht₁, hoptions₁⟩ := Host.told_exists ht (String.ofList base ++ ".ts")
  by_cases hts : (files (String.ofList base ++ ".ts")).isSome = true
  · refine ⟨_, ht₁, hoptions₁, ?_⟩
    simp [hextension, hsource, hts, Except.bind]
  obtain ⟨hdeclaration, ht₂, hoptions₂⟩ := Host.told_exists ht₁ (String.ofList base ++ ".d.ts")
  refine ⟨_, ht₂, hoptions₂.trans hoptions₁, ?_⟩
  by_cases hdts : (files (String.ofList base ++ ".d.ts")).isSome = true
  · simp [hextension, hsource, hts, hdeclaration, hdts, Except.bind]
  · simp [hextension, hsource, hts, hdeclaration, hdts, Except.bind]

/-! ## Loading goes on -/

/-- What loading leaves as it was. -/
structure Extends (files : String → Option Bytes) (p p' : Progress) : Prop where
  truthful : p'.host.Truthful files
  options : p'.host.options = p.host.options
  /-- What has been looked for has been looked for. -/
  found : ∀ key, p.found.contains key = true → p'.found.contains key = true

theorem Extends.refl {files : String → Option Bytes} {p : Progress}
    (ht : p.host.Truthful files) : Extends files p p :=
  ⟨ht, rfl, fun _ h ↦ h⟩

theorem Extends.trans {files : String → Option Bytes} {p q r : Progress} (h : Extends files p q)
    (h' : Extends files q r) : Extends files p r :=
  ⟨h'.truthful, h'.options.trans h.options, fun key hkey ↦ h'.found key (h.found key hkey)⟩

/-- Whether a step of loading comes to an end without a halt. -/
def Settles {α : Type} (files : String → Option Bytes) (m : Loading α) (p : Progress) : Prop :=
  ∃ a p', outcome files m p = .ok (a, p') ∧ Extends files p p'

/-- Whether words that cannot be read are in none of the files. -/
def Readable (files : String → Option Bytes) : Prop :=
  ∀ path bs text, files path = some bs → SourceFile.decode bs = .ok text →
    (SyntaxTree.ofText? text).isSome = true

/-- Whether a step of loading comes to an end, or else to a word that cannot be read. -/
def Ends {α : Type} (files : String → Option Bytes) (m : Loading α) (p : Progress) : Prop :=
  Settles files m p ∨ ¬ Readable files ∧ outcome files m p = .error .unreadableWord

namespace Ends

variable {α γ : Type} {files : String → Option Bytes} {m : Loading α} {p : Progress}

theorem pure {a : α} (ht : p.host.Truthful files) : Ends files (pure a) p :=
  .inl ⟨a, p, rfl, .refl ht⟩

theorem bind {f : α → Loading γ} (hm : Ends files m p)
    (hf : ∀ a p', Extends files p p' → Ends files (f a) p') : Ends files (m >>= f) p := by
  rcases hm with ⟨a, p₁, hm, hp₁⟩ | ⟨hunreadable, hm⟩
  · rcases hf a p₁ hp₁ with ⟨b, p₂, hf, hp₂⟩ | ⟨hunreadable, hf⟩
    · exact .inl ⟨b, p₂, outcome_bind_eq_ok.mpr ⟨a, p₁, hm, hf⟩, hp₁.trans hp₂⟩
    · refine .inr ⟨hunreadable, ?_⟩
      rw [outcome_bind, hm]
      exact hf
  · refine .inr ⟨hunreadable, ?_⟩
    rw [outcome_bind, hm]
    rfl

theorem settles (hm : Ends files m p) (hreadable : Readable files) : Settles files m p :=
  hm.resolve_right fun h ↦ h.1 hreadable

/-- There is depth enough where a step of loading ends. -/
theorem ne_deep (hm : Ends files m p) : outcome files m p ≠ .error .deepImports := by
  intro hdeep
  rcases hm with ⟨a, p', hm, -⟩ | ⟨-, hm⟩
  · rw [hdeep] at hm
    cases hm
  · rw [hdeep] at hm
    cases hm

end Ends

/-- An empty text has no word that cannot be read. -/
theorem isSome_ofText?_nil : (SyntaxTree.ofText? []).isSome = true := by
  rw [SyntaxTree.ofText?, Option.isSome_map, Scan.ofText?]
  simp [pieces]

theorem Readable.tree {files : String → Option Bytes} (h : Readable files) {path : String}
    {bs : Bytes} (hfile : files path = some bs) :
    ∃ tree, SyntaxTree.ofText? (Host.textOf bs) = some tree := by
  rw [← Option.isSome_iff_exists, Host.textOf]
  split
  · next text hdecode => exact h path bs text hfile hdecode
  · exact isSome_ofText?_nil

/-! ## The ways in which loading a file can go -/

/-- Follows an import to where it leads. -/
def follow (load : String → Loading Bool) : Option String → Loading Bool
  | some path => load path
  | none => pure false

theorem loadImports_cons (load : String → Loading Bool) (importer : String) (i : Import)
    (is : List Import) :
    loadImports load importer (i :: is) = do
      let found ← follow load (← resolve importer i.specifier)
      let others ← loadImports load importer is
      return if found then others else i :: others := by
  rw [loadImports]
  congr
  funext target
  cases target <;> rfl

section Load

variable {files : String → Option Bytes} {place : Surroundings} {target : LanguageTarget}
variable {depth : Nat} {path : String} {p : Progress} {host : Host}

/-- A file that has been looked for is not loaded again. -/
theorem outcome_load_known {found : Bool}
    (hknown : p.found.get? (place.canonicalName path) = some found) :
    outcome files (load place target depth path) p = .ok (found, p) := by
  rw [load.eq_def]
  simp [hknown, Except.bind]

/-- Without any depth nothing new is loaded. -/
theorem outcome_load_deep (hnew : p.found.get? (place.canonicalName path) = none) :
    outcome files (load place target 0 path) p = .error .deepImports := by
  rw [load, outcome_bind, outcome_get, Except.bind, hnew]
  rfl

/-- A file that is not there is noted. -/
theorem outcome_load_missing (hnew : p.found.get? (place.canonicalName path) = none)
    (hsource : ((Host.sourceFile path target).run p.host).run files = (none, host)) :
    outcome files (load place target (depth + 1) path) p =
      .ok (false, { p with
        host
        found := (p.found.insert (place.canonicalName path) true).insert
          (place.canonicalName path) false }) := by
  rw [load]
  simp [hnew, hsource, Except.bind, Except.map]

/-- A file with a word that cannot be read is not loaded. -/
theorem outcome_load_unreadable {source : SourceFile}
    (hnew : p.found.get? (place.canonicalName path) = none)
    (hsource : ((Host.sourceFile path target).run p.host).run files = (some source, host))
    (htree : SyntaxTree.ofText? source.chars = none) :
    outcome files (load place target (depth + 1) path) p = .error .unreadableWord := by
  rw [load]
  simp only [outcome_bind, outcome_get, Except.bind, hnew, outcome_note, outcome_hosted, hsource,
    htree]
  rfl

/-- A file that is there is noted, and kept once its imports have been loaded. -/
theorem outcome_load_present {source : SourceFile} {tree : SyntaxTree}
    (hnew : p.found.get? (place.canonicalName path) = none)
    (hsource : ((Host.sourceFile path target).run p.host).run files = (some source, host))
    (htree : SyntaxTree.ofText? source.chars = some tree) :
    outcome files (load place target (depth + 1) path) p =
      (outcome files (loadImports (load place target depth) path tree.imports)
        { p with host, found := p.found.insert (place.canonicalName path) true }).map
          fun r ↦ (true, { r.2 with files := ⟨source, tree, r.1⟩ :: r.2.files }) := by
  rw [load]
  simp only [outcome_bind, outcome_get, Except.bind, hnew, outcome_note, outcome_hosted, hsource,
    htree, outcome_modify, outcome_pure]
  rcases outcome files _ _ with halt | ⟨unresolved, p'⟩
  · rfl
  · rfl

end Load

/-! ## Loading comes to an end -/

theorem Readable.of_entries {files : Table Bytes}
    (h : ∀ entry ∈ files.entries, (SyntaxTree.ofText? (Host.textOf entry.2)).isSome = true) :
    Readable files.get? := by
  intro path bs text hfile hdecode
  have htext : Host.textOf bs = text := by rw [Host.textOf, hdecode]
  rw [← htext]
  exact h (path, bs) (Table.mem_entries_of_get? hfile)

section Depth

variable {files : Table Bytes} {place : Surroundings}

/-- The names of files that are there and have not been looked for yet. -/
def unvisited (files : Table Bytes) (place : Surroundings) (p : Progress) : List String :=
  (files.entries.map fun entry ↦ place.canonicalName entry.1).filter
    fun key ↦ !p.found.contains key

/-- There are never more than there are files. -/
theorem length_unvisited_le (p : Progress) :
    (unvisited files place p).length ≤ files.size := by
  refine Nat.le_trans (List.length_filter_le _ _) ?_
  rw [List.length_map]
  exact Nat.le_refl _

/-- The more has been looked for, the less is left. -/
theorem Extends.length_unvisited_le {p p' : Progress} (h : Extends files.get? p p') :
    (unvisited files place p').length ≤ (unvisited files place p).length := by
  rw [unvisited, unvisited, ← List.countP_eq_length_filter, ← List.countP_eq_length_filter]
  refine List.countP_mono_left fun key _ hkey ↦ ?_
  rw [Bool.not_eq_true', ← Bool.not_eq_true] at hkey ⊢
  exact fun hfound ↦ hkey (h.found key hfound)

/-- Once a file that is there is looked for, less is left. -/
theorem length_unvisited_lt {p p' : Progress} {path : String} {bs : Bytes} {found : Bool}
    (hfile : files.get? path = some bs)
    (hnew : p.found.get? (place.canonicalName path) = none)
    (hfound : p'.found = p.found.insert (place.canonicalName path) found) :
    (unvisited files place p').length < (unvisited files place p).length := by
  have hsub : unvisited files place p' =
      (unvisited files place p).filter fun key ↦ key ≠ place.canonicalName path := by
    rw [unvisited, unvisited, List.filter_filter]
    refine List.filter_congr fun key _ ↦ ?_
    rw [hfound, Table.contains_insert]
    simp [eq_comm]
  rw [hsub, List.length_filter_lt_length_iff_exists]
  refine ⟨place.canonicalName path, ?_, by simp⟩
  rw [unvisited, List.mem_filter, Table.contains, hnew]
  refine ⟨List.mem_map.mpr ⟨(path, bs), ?_, rfl⟩, rfl⟩
  exact Table.mem_entries_of_get? hfile

theorem ends_loadImports {load : String → Loading Bool} {depth : Nat}
    (hload : ∀ path p, p.host.Truthful files.get? → (unvisited files place p).length < depth →
      Ends files.get? (load path) p)
    (importer : String) (is : List Import) {p : Progress} (ht : p.host.Truthful files.get?)
    (hdepth : (unvisited files place p).length < depth) :
    Ends files.get? (loadImports load importer is) p := by
  induction is generalizing p with
  | nil => exact .pure ht
  | cons i is ih =>
      have hleft {p' : Progress} (hp : Extends files.get? p p') :
          (unvisited files place p').length < depth :=
        Nat.lt_of_le_of_lt hp.length_unvisited_le hdepth
      obtain ⟨host, ht₁, hoptions, hresolve⟩ := outcome_resolve ht importer i.specifier
      have hresolved : Ends files.get? (resolve importer i.specifier) p :=
        .inl ⟨_, _, hresolve, ht₁, hoptions, fun _ h ↦ h⟩
      rw [loadImports_cons]
      refine hresolved.bind fun target p₁ hp₁ ↦ ?_
      have hfollow : Ends files.get? (follow load target) p₁ := by
        cases target with
        | none => exact .pure hp₁.truthful
        | some path => exact hload path p₁ hp₁.truthful (hleft hp₁)
      refine hfollow.bind fun found p₂ hp₂ ↦ ?_
      exact (ih hp₂.truthful (hleft (hp₁.trans hp₂))).bind fun others p₃ hp₃ ↦ .pure hp₃.truthful

/-- With more depth than there are files left, loading a file comes to an end. -/
theorem ends_load (target : LanguageTarget) {depth : Nat} {p : Progress} (path : String)
    (ht : p.host.Truthful files.get?) (hdepth : (unvisited files place p).length < depth) :
    Ends files.get? (load place target depth path) p := by
  induction depth generalizing p path with
  | zero => cases hdepth
  | succ depth ih =>
      cases hknown : p.found.get? (place.canonicalName path) with
      | some found => exact .inl ⟨found, p, outcome_load_known hknown, .refl ht⟩
      | none =>
          obtain ⟨hsource, ht₁, hoptions⟩ := Host.told_sourceFile ht path target
          rcases hrun : ((Host.sourceFile path target).run p.host).run files.get? with ⟨found, host⟩
          rw [hrun] at hsource ht₁ hoptions
          obtain rfl : found = _ := hsource
          cases hfile : files.get? path with
          | none =>
              rw [hfile] at hrun
              refine .inl ⟨false, _, outcome_load_missing hknown hrun, ht₁, hoptions, ?_⟩
              intro key hkey
              simp [hkey]
          | some bs =>
              rw [hfile] at hrun
              cases htree : SyntaxTree.ofText? (Host.textOf bs) with
              | none =>
                  refine .inr ⟨fun hreadable ↦ ?_, outcome_load_unreadable hknown hrun htree⟩
                  obtain ⟨tree, htree'⟩ := hreadable.tree hfile
                  cases htree.symm.trans htree'
              | some tree =>
                  -- What is left becomes less here, so that the depth below is still enough.
                  have hlt : (unvisited files place { p with
                      host
                      found := p.found.insert (place.canonicalName path) true }).length <
                        (unvisited files place p).length :=
                    length_unvisited_lt hfile hknown rfl
                  have himports := ends_loadImports (fun path p ht ↦ ih path ht) path tree.imports
                    ht₁ (Nat.lt_of_lt_of_le hlt (Nat.le_of_lt_succ hdepth))
                  have hload : outcome files.get? (load place target (depth + 1) path) p = _ :=
                    outcome_load_present hknown hrun htree
                  rcases himports with ⟨unresolved, p₁, himports, hp₁⟩ | ⟨hunreadable, himports⟩
                  · let file : LoadedFile := ⟨⟨path, Host.textOf bs, target⟩, tree, unresolved⟩
                    refine .inl ⟨true, { p₁ with files := file :: p₁.files }, ?_, hp₁.truthful,
                      hp₁.options.trans hoptions, ?_⟩
                    · rw [hload, himports]
                      rfl
                    · intro key hkey
                      exact hp₁.found key (by simp [hkey])
                  · refine .inr ⟨hunreadable, ?_⟩
                    rw [hload, himports]
                    rfl

end Depth

end Loading

end PipedCompiler.Compile
