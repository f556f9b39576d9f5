import PipedCompiler.Proofs.Compile.ImportGraph

/-!
# Loading is a walk

Loading a file walks through the graph of imports.  All that it leaves with the host is what it
found on the way: the host knows the files that have been visited, and has something to say about
those among them that are not texts, in the order in which they have been visited.
-/

namespace PipedCompiler.Compile

open PipedCompiler.Text PipedCompiler.Bridge PipedCompiler.Language

theorem Trail.visited_note {t : Trail} {path : String} (hnew : t.found.contains path = false)
    (found : Bool) :
    (t.note path found).visited = t.visited ++ if found then [path] else [] := by
  have hnone : t.found.get? path = none := Table.contains_eq_false_iff.mp hnew
  rw [visited, note_found, Table.insert, Table.erase_of_get?_eq_none hnone, visited]
  cases found with
  | false => simp
  | true => simp

/-! ## Hosts along a walk -/

namespace Host

/-- Whether a host knows that there is a file. -/
def knows (h : Host) (path : String) : Bool :=
  (h.known.get? path).any Option.isSome

/-- What a host that starts as `h` comes to say about a file. -/
def news? (files : String → Option Bytes) (h : Host) (path : String) : Option Diagnostic :=
  if h.knows path then none else (files path).bind (complaint? path)

variable {files : String → Option Bytes} {h₀ h : Host} {t : Trail} {path : String}

theorem knows_iff : h.knows path = true ↔ ∃ text, h.known.get? path = some (some text) := by
  rw [knows, Option.any_eq_true]
  constructor
  · rintro ⟨known, hknown, hsome⟩
    obtain ⟨text, rfl⟩ := Option.isSome_iff_exists.mp hsome
    exact ⟨text, hknown⟩
  · rintro ⟨text, hknown⟩
    exact ⟨some text, hknown, rfl⟩

theorem knows_hear (other : String) (reply : Option Bytes) :
    (h.hear path reply).knows other = if path = other then reply.isSome else h.knows other := by
  rw [knows, hear, Table.get?_insert]
  split
  · simp
  · rfl

end Host

/-- What a host that started as `h₀` is like when a walk has come this far. -/
structure Abreast (files : String → Option Bytes) (h₀ h : Host) (t : Trail) : Prop where
  truthful : h.Truthful files
  right : ∀ path found, t.found.get? path = some found → found = (files path).isSome
  options : h.options = h₀.options
  output : h.output = h₀.output
  /-- It knows the files that have been visited besides those that it knew before. -/
  knows : ∀ path, h.knows path = true ↔ h₀.knows path = true ∨ t.found.get? path = some true
  /-- It has something to say about those that have been visited. -/
  diagnostics : h.diagnostics = h₀.diagnostics ++ t.visited.filterMap (h₀.news? files)

/-- What is said about the files that have been visited and are not texts, the first one first. -/
def Trail.complaints (files : String → Option Bytes) (t : Trail) : List Diagnostic :=
  t.visited.filterMap fun path ↦ (files path).bind (Host.complaint? path)

/-- What a host is like when a walk goes on to a path, which it may have been asked for already. -/
def Ready (files : String → Option Bytes) (h₀ : Host) (target : Option String) (h : Host)
    (t : Trail) : Prop :=
  Abreast files h₀ h t ∨
    ∃ path ∈ target, t.found.contains path = false ∧ (files path).isSome = true ∧
      Abreast files h₀ h (t.note path true)

namespace Abreast

variable {files : String → Option Bytes} {h₀ h : Host} {t : Trail} {path : String}

theorem start (ht : h₀.Truthful files) : Abreast files h₀ h₀ .start where
  truthful := ht
  right path found h := by simp [Trail.start] at h
  options := rfl
  output := rfl
  knows path := by simp [Trail.start]
  diagnostics := by simp [Trail.visited, Trail.start, Table.empty]

/-- A path is looked for, and the host says what is new about it. -/
theorem note {h' : Host} (ha : Abreast files h₀ h t) (hnew : t.found.contains path = false)
    (htruthful : h'.Truthful files) (hoptions : h'.options = h.options)
    (houtput : h'.output = h.output)
    (hknows : ∀ other, h'.knows other = true ↔
      h.knows other = true ∨ path = other ∧ (files path).isSome = true)
    (hdiagnostics : h'.diagnostics = h.diagnostics ++ (h₀.news? files path).toList) :
    Abreast files h₀ h' (t.note path (files path).isSome) where
  truthful := htruthful
  right other found hother := by
    rcases Trail.get?_note_cases hother with ⟨rfl, rfl⟩ | hother
    · rfl
    · exact ha.right other found hother
  options := hoptions.trans ha.options
  output := houtput.trans ha.output
  knows other := by
    rw [hknows, ha.knows, Trail.note_found, Table.get?_insert, or_assoc]
    refine or_congr_right ?_
    split
    · next heq =>
      subst heq
      have hnone : t.found.get? path = none := Table.contains_eq_false_iff.mp hnew
      simp [hnone]
    · next hne => simp [hne]
  diagnostics := by
    rw [hdiagnostics, ha.diagnostics, Trail.visited_note hnew, List.filterMap_append,
      List.append_assoc]
    cases hfile : files path with
    | none => simp [Host.news?, hfile]
    | some bs =>
        simp only [Option.isSome_some, ↓reduceIte, List.filterMap_cons, List.filterMap_nil]
        cases h₀.news? files path with
        | none => simp
        | some d => simp

/-- Keeping a file is no concern of the host. -/
theorem keep (ha : Abreast files h₀ h t) (f : LoadedFile) : Abreast files h₀ h (t.keep f) :=
  ⟨ha.truthful, ha.right, ha.options, ha.output, ha.knows, ha.diagnostics⟩

/-- A host that is asked for a path without a file has learnt nothing of interest. -/
theorem hear_missing (ha : Abreast files h₀ h t) (hunknown : h.known.get? path = none)
    (hfile : files path = none) : Abreast files h₀ (h.hear path none) t where
  truthful := hfile ▸ ha.truthful.hear path
  right := ha.right
  options := ha.options
  output := ha.output
  knows other := by
    rw [Host.knows_hear, ← ha.knows]
    split
    · next heq =>
      subst heq
      simp [Host.knows, hunknown]
    · rfl
  diagnostics := by
    rw [Host.hear, ha.diagnostics]
    simp

/-- A host that is told what a path holds says what is new about it. -/
theorem hear_new (ha : Abreast files h₀ h t) (hunknown : h.known.get? path = none)
    (hnew : t.found.contains path = false) :
    Abreast files h₀ (h.hear path (files path)) (t.note path (files path).isSome) := by
  have hnot : h.knows path = false := by simp [Host.knows, hunknown]
  have hnot₀ : h₀.knows path = false := by
    rw [← Bool.not_eq_true] at hnot ⊢
    exact fun hknows ↦ hnot ((ha.knows path).mpr (.inl hknows))
  refine ha.note hnew (ha.truthful.hear path) rfl rfl (fun other ↦ ?_) ?_
  · rw [Host.knows_hear]
    split
    · next heq =>
      subst heq
      simp [hnot]
    · next hne => simp [hne]
  · simp [Host.hear, Host.news?, hnot₀]

/-- A file that a host knows nothing about has not been looked for. -/
theorem new_of_unknown (ha : Abreast files h₀ h t) (hunknown : h.known.get? path = none)
    (hthere : (files path).isSome = true) : t.found.contains path = false := by
  rw [← Bool.not_eq_true]
  intro hcontains
  obtain ⟨found, hfound⟩ := Option.isSome_iff_exists.mp hcontains
  rw [ha.right path found hfound, hthere] at hfound
  have hknows := (ha.knows path).mpr (.inr hfound)
  simp [Host.knows, hunknown] at hknows

/-- A file that has not been looked for is loaded as it is. -/
theorem load (ha : Abreast files h₀ h t) (hnew : t.found.contains path = false) :
    ∃ h', ((Host.load path).run h).run files = ((files path).map Host.textOf, h') ∧
      Abreast files h₀ h' (t.note path (files path).isSome) := by
  have hnone : t.found.get? path = none := Table.contains_eq_false_iff.mp hnew
  cases hknown : h.known.get? path with
  | some text =>
      have htext := ha.truthful path text hknown
      have hthere : (files path).isSome = true → h.knows path = true := by
        simp [Host.knows, hknown, htext]
      refine ⟨h, ?_, ha.note hnew ha.truthful rfl rfl (fun other ↦ ⟨.inl, ?_⟩) ?_⟩
      · rw [Host.load_known hknown, htext]
        rfl
      · rintro (hknows | ⟨rfl, hsome⟩)
        · exact hknows
        · exact hthere hsome
      · cases hfile : files path with
        | none => simp [Host.news?, hfile]
        | some bs =>
            have hknows := (ha.knows path).mp (hthere (by simp [hfile]))
            rw [hnone] at hknows
            simp [Host.news?, hknows.resolve_right nofun]
  | none =>
      refine ⟨h.hear path (files path), ?_, ha.hear_new hknown hnew⟩
      rw [Host.load_new hknown]
      rfl

/-- Asked whether there is a file, a host may look into it; then it is ready to load it. -/
theorem exists? (ha : Abreast files h₀ h t) (path : String) :
    ∃ h', ((Host.exists? path).run h).run files = ((files path).isSome, h') ∧
      Ready files h₀ (some path) h' t ∧ (files path = none → Abreast files h₀ h' t) := by
  cases hknown : h.known.get? path with
  | some text =>
      refine ⟨h, ?_, .inl ha, fun _ ↦ ha⟩
      rw [Host.exists_known hknown, ha.truthful path text hknown, Option.isSome_map]
      rfl
  | none =>
      rw [Host.exists_new hknown]
      cases hfile : files path with
      | none =>
          have hheard := ha.hear_missing hknown hfile
          refine ⟨h.hear path none, ?_, .inl hheard, fun _ ↦ hheard⟩
          split
          · simp [Dialogue.run, hfile]
          · simp [Dialogue.run, hfile]
      | some bs =>
          split
          · refine ⟨h, ?_, .inl ha, by rintro ⟨⟩⟩
            simp [Dialogue.run, hfile]
          · have hthere : (files path).isSome = true := by simp [hfile]
            have hnew := ha.new_of_unknown hknown hthere
            have hheard := ha.hear_new hknown hnew
            rw [hthere, hfile] at hheard
            refine ⟨h.hear path (some bs), ?_, .inr ⟨path, rfl, hnew, hthere, hheard⟩,
              by rintro ⟨⟩⟩
            simp [Dialogue.run, hfile]

/-- A host that knew nothing has something to say about all files that are not texts. -/
theorem diagnostics_start {options : CompileOptions} (ha : Abreast files (.start options) h t) :
    h.diagnostics = t.complaints files := by
  rw [ha.diagnostics, Trail.complaints]
  exact List.nil_append _

end Abreast

namespace Ready

variable {files : String → Option Bytes} {h₀ h : Host} {t : Trail} {path : String}

theorem none_iff : Ready files h₀ none h t ↔ Abreast files h₀ h t := by
  simp [Ready]

/-- A host that has been asked for a file remembers it. -/
theorem load (hr : Ready files h₀ (some path) h t) (hnew : t.found.contains path = false) :
    ∃ h', ((Host.load path).run h).run files = ((files path).map Host.textOf, h') ∧
      Abreast files h₀ h' (t.note path (files path).isSome) := by
  rcases hr with ha | ⟨path, hpath, -, hthere, ha⟩
  · exact ha.load hnew
  · obtain rfl := Option.some.inj hpath
    refine ⟨h, ?_, hthere ▸ ha⟩
    obtain ⟨text, hknown⟩ := Host.knows_iff.mp ((ha.knows path).mpr (.inr (by simp)))
    rw [Host.load_known hknown, ha.truthful _ _ hknown]
    rfl

/-- What has been looked for is not asked for again. -/
theorem abreast (hr : Ready files h₀ (some path) h t) (hfound : t.found.contains path = true) :
    Abreast files h₀ h t := by
  rcases hr with ha | ⟨path, hpath, hnew, -⟩
  · exact ha
  · obtain rfl := Option.some.inj hpath
    simp [hfound] at hnew

end Ready

/-! ## Loading -/

theorem Surroundings.canonicalName_plain (path : String) :
    Surroundings.plain.canonicalName path = path := rfl

/-- How far the walk of a load has come. -/
def Progress.trail (p : Progress) : Trail := ⟨p.found, p.files⟩

/-- Whether loading walks to some paths. -/
structure Walked (files : String → Option Bytes) (target : LanguageTarget) (h₀ : Host)
    (paths : List String) (p p' : Progress) : Prop where
  walk : Walk files target paths p.trail p'.trail
  abreast : Abreast files h₀ p'.host p'.trail

namespace Loading

variable {files : String → Option Bytes} {target : LanguageTarget} {h₀ : Host}
variable {p p' : Progress}

theorem walked_resolve (ha : Abreast files h₀ p.host p.trail) (importer specifier : String) :
    ∃ host, outcome files (resolve importer specifier) p =
        .ok (resolved files importer specifier, { p with host }) ∧
      Ready files h₀ (resolved files importer specifier) host p.trail := by
  simp only [resolve, resolved]
  generalize importBase importer.toList specifier.toList = base
  by_cases hextension : hasExtension base = true
  · refine ⟨p.host, ?_, .inl ha⟩
    simp [hextension]
  obtain ⟨host₁, hrun₁, hready₁, hmissing₁⟩ := ha.exists? (String.ofList base ++ ".ts")
  by_cases hts : (files (String.ofList base ++ ".ts")).isSome = true
  · refine ⟨host₁, ?_, ?_⟩
    · simp [hextension, hrun₁, hts, Except.bind]
    · simpa [hextension, hts] using hready₁
  obtain ⟨host₂, hrun₂, hready₂, hmissing₂⟩ :=
    (hmissing₁ (by simpa using hts)).exists? (String.ofList base ++ ".d.ts")
  refine ⟨host₂, ?_, ?_⟩
  · by_cases hdts : (files (String.ofList base ++ ".d.ts")).isSome = true
    · simp [hextension, hrun₁, hts, hrun₂, hdts, Except.bind]
    · simp [hextension, hrun₁, hts, hrun₂, hdts, Except.bind]
  · by_cases hdts : (files (String.ofList base ++ ".d.ts")).isSome = true
    · simpa [hextension, hts, hdts] using hready₂
    · simpa [hextension, hts, hdts, Ready.none_iff] using hmissing₂ (by simpa using hdts)

/-- Where loading single files walks, loading imports walks to where they lead. -/
theorem walked_loadImports {load : String → Loading Bool}
    (hload : ∀ {path p found p'}, Ready files h₀ (some path) p.host p.trail →
      outcome files (load path) p = .ok (found, p') →
        found = (files path).isSome ∧ Walked files target h₀ [path] p p')
    {importer : String} {is unresolved : List Import} (ha : Abreast files h₀ p.host p.trail)
    (hrun : outcome files (loadImports load importer is) p = .ok (unresolved, p')) :
    unresolved = is.filter (fun i ↦ !leads files importer i) ∧
      Walked files target h₀ (is.filterMap fun i ↦ resolved files importer i.specifier) p p' := by
  induction is generalizing p unresolved with
  | nil =>
      obtain ⟨rfl, rfl⟩ := Prod.mk.inj (Except.ok.inj hrun)
      exact ⟨rfl, .nil _, ha⟩
  | cons i is ih =>
      obtain ⟨host, hresolve, hready⟩ := walked_resolve ha importer i.specifier
      rw [loadImports_cons] at hrun
      obtain ⟨_, _, hresolve', hrun⟩ := outcome_bind_eq_ok.mp hrun
      obtain ⟨rfl, rfl⟩ := Prod.mk.inj (Except.ok.inj (hresolve.symm.trans hresolve'))
      obtain ⟨found, p₁, hfollow, hrun⟩ := outcome_bind_eq_ok.mp hrun
      obtain ⟨others, p₂, hothers, hrun⟩ := outcome_bind_eq_ok.mp hrun
      obtain ⟨rfl, rfl⟩ := Prod.mk.inj (Except.ok.inj hrun)
      cases hresolved : resolved files importer i.specifier with
      | none =>
          rw [hresolved] at hfollow hready
          obtain ⟨rfl, rfl⟩ := Prod.mk.inj (Except.ok.inj hfollow)
          obtain ⟨rfl, hwalk, ha₂⟩ := ih (Ready.none_iff.mp hready) hothers
          refine ⟨?_, ?_, ha₂⟩
          · simp [leads, hresolved]
          · rw [List.filterMap_cons, hresolved]
            exact hwalk
      | some path =>
          rw [hresolved] at hfollow hready
          obtain ⟨rfl, hwalk₁, ha₁⟩ := hload hready hfollow
          obtain ⟨rfl, hwalk₂, ha₂⟩ := ih ha₁ hothers
          refine ⟨?_, ?_, ha₂⟩
          · cases hfile : files path with
            | none => simp [leads, hresolved, hfile]
            | some bs => simp [leads, hresolved, hfile]
          · rw [List.filterMap_cons, hresolved]
            exact hwalk₁.append hwalk₂

/-- There is no way to go to what has been looked for. -/
theorem walked_known {path : String} {found : Bool}
    (hr : Ready files h₀ (some path) p.host p.trail) (hknown : p.found.get? path = some found) :
    found = (files path).isSome ∧ Walked files target h₀ [path] p p := by
  have hfound : p.trail.found.contains path = true := by
    simp [Progress.trail, Table.contains, hknown]
  have ha := hr.abreast hfound
  exact ⟨ha.right path found hknown, .known hfound (.nil _), ha⟩

/-- Loading a file walks to it. -/
theorem walked_load {depth : Nat} {path : String} {found : Bool}
    (hr : Ready files h₀ (some path) p.host p.trail)
    (hrun : outcome files (load .plain target depth path) p = .ok (found, p')) :
    found = (files path).isSome ∧ Walked files target h₀ [path] p p' := by
  induction depth generalizing path p found p' with
  | zero =>
      cases hknown : p.found.get? path with
      | some known =>
          rw [outcome_load_known hknown] at hrun
          obtain ⟨rfl, rfl⟩ := Prod.mk.inj (Except.ok.inj hrun)
          exact walked_known hr hknown
      | none =>
          rw [outcome_load_deep hknown] at hrun
          cases hrun
  | succ depth ih =>
      cases hknown : p.found.get? path with
      | some known =>
          rw [outcome_load_known hknown] at hrun
          obtain ⟨rfl, rfl⟩ := Prod.mk.inj (Except.ok.inj hrun)
          exact walked_known hr hknown
      | none =>
          have hnew : p.trail.found.contains path = false :=
            Table.contains_eq_false_iff.mpr hknown
          obtain ⟨host, hload, ha⟩ := hr.load hnew
          have hsource : ((Host.sourceFile path target).run p.host).run files = _ :=
            Host.run_sourceFile path target
          rw [hload] at hsource
          cases hfile : files path with
          | none =>
              rw [hfile] at hsource ha
              rw [outcome_load_missing hknown hsource] at hrun
              obtain ⟨rfl, rfl⟩ := Prod.mk.inj (Except.ok.inj hrun)
              rw [Surroundings.canonicalName_plain, Table.insert_insert]
              exact ⟨rfl, .missing hnew hfile (.nil _), ha⟩
          | some bs =>
              rw [hfile] at hsource ha
              cases htree : SyntaxTree.ofText? (Host.textOf bs) with
              | none =>
                  rw [outcome_load_unreadable hknown hsource htree] at hrun
                  cases hrun
              | some tree =>
                  rw [outcome_load_present hknown hsource htree] at hrun
                  cases himports : outcome files
                      (loadImports (load .plain target depth) path tree.imports)
                      { p with host, found := p.found.insert path true } with
                  | error halt =>
                      rw [Surroundings.canonicalName_plain, himports] at hrun
                      cases hrun
                  | ok r =>
                      rw [Surroundings.canonicalName_plain, himports] at hrun
                      obtain ⟨rfl, rfl⟩ := Prod.mk.inj (Except.ok.inj hrun)
                      obtain ⟨hunresolved, hwalk, ha₁⟩ := walked_loadImports ih ha himports
                      rw [hunresolved]
                      exact ⟨rfl, .present hnew hfile htree hwalk (.nil _),
                        ha₁.keep (kept files target path bs tree)⟩

end Loading

end PipedCompiler.Compile
