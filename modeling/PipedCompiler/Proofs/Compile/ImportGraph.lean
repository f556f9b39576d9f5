import Mathlib.Logic.Relation
import PipedCompiler.Proofs.Compile.Loading

/-!
# The graph of imports

Files import each other, in circles if they like.  A walk goes through them depth first: it notes a
file, goes on to those that the file imports, and keeps the file once it is back from them.  So it
keeps each file at most once, it keeps what can be reached and nothing else, and it keeps a file
behind those that it imports, unless these lead back to it.
-/

namespace PipedCompiler.Compile

open PipedCompiler.Text PipedCompiler.Bridge PipedCompiler.Language

section Graph

variable (files : String → Option Bytes)

/-! ## Imports -/

/-- The paths that the imports of a file lead to, whether there are such files or not. -/
def targets (importer : String) (tree : SyntaxTree) : List String :=
  tree.imports.filterMap fun i ↦ Loading.resolved files importer i.specifier

/-- Whether an import leads to a file that is there. -/
def leads (importer : String) (i : Import) : Bool :=
  ((Loading.resolved files importer i.specifier).bind files).isSome

/-- Whether a file imports another one, and both are there. -/
def Imports (importer imported : String) : Prop :=
  ∃ bs tree, files importer = some bs ∧ SyntaxTree.ofText? (Host.textOf bs) = some tree ∧
    imported ∈ targets files importer tree ∧ (files imported).isSome

/-- Whether imports lead from a file to another one. -/
def Reaches : String → String → Prop :=
  Relation.ReflTransGen (Imports files)

/-- A file as a program keeps it. -/
def kept (target : LanguageTarget) (path : String) (bs : Bytes) (tree : SyntaxTree) : LoadedFile :=
  ⟨⟨path, Host.textOf bs, target⟩, tree, tree.imports.filter fun i ↦ !leads files path i⟩

end Graph

theorem Imports.isSome {files : String → Option Bytes} {importer imported : String}
    (h : Imports files importer imported) : (files imported).isSome = true := by
  obtain ⟨_, _, _, _, _, hthere⟩ := h
  exact hthere

theorem imports_iff {files : String → Option Bytes} {importer imported : String} {bs : Bytes}
    {tree : SyntaxTree} (hfile : files importer = some bs)
    (htree : SyntaxTree.ofText? (Host.textOf bs) = some tree) :
    Imports files importer imported ↔
      imported ∈ targets files importer tree ∧ (files imported).isSome = true := by
  constructor
  · rintro ⟨bs', tree', hfile', htree', himports⟩
    obtain rfl := Option.some.inj (hfile.symm.trans hfile')
    obtain rfl := Option.some.inj (htree.symm.trans htree')
    exact himports
  · exact fun himports ↦ ⟨bs, tree, hfile, htree, himports⟩

theorem leads_iff {files : String → Option Bytes} {importer : String} {i : Import} :
    leads files importer i = true ↔
      ∃ imported, Loading.resolved files importer i.specifier = some imported ∧
        (files imported).isSome = true := by
  rw [leads]
  cases Loading.resolved files importer i.specifier with
  | none => simp
  | some imported => simp

/-! ## Walks -/

/-- How far a walk has come. -/
structure Trail where
  /-- The paths that have been looked for, and whether there are such files. -/
  found : Table Bool
  /-- The files kept so far, the last one first. -/
  files : List LoadedFile

namespace Trail

/-- Before the first step. -/
def start : Trail := ⟨.empty, []⟩

/-- The trail once a path has been looked for. -/
def note (t : Trail) (path : String) (found : Bool) : Trail :=
  { t with found := t.found.insert path found }

/-- The trail once a file is kept. -/
def keep (t : Trail) (f : LoadedFile) : Trail :=
  { t with files := f :: t.files }

/-- The paths of the files kept so far, the last one first. -/
def paths (t : Trail) : List String :=
  t.files.map (·.source.path)

/-- The paths of the files found so far, the first one first. -/
def visited (t : Trail) : List String :=
  ((t.found.entries.filter Prod.snd).map Prod.fst).reverse

@[simp] theorem note_found (t : Trail) (path : String) (found : Bool) :
    (t.note path found).found = t.found.insert path found := rfl

theorem get?_note_cases {t : Trail} {path other : String} {found found' : Bool}
    (h : (t.note path found).found.get? other = some found') :
    path = other ∧ found = found' ∨ t.found.get? other = some found' := by
  rw [note_found, Table.get?_insert] at h
  split at h
  · next heq => exact .inl ⟨heq, Option.some.inj h⟩
  · exact .inr h

/-- What is noted for the first time changes nothing about what has been noted. -/
theorem get?_note_of_new {t : Trail} {path other : String} {found found' : Bool}
    (hnew : t.found.contains path = false) (h : t.found.get? other = some found') :
    (t.note path found).found.get? other = some found' := by
  rw [note_found, Table.get?_insert, if_neg, h]
  rintro rfl
  rw [Table.contains_eq_false_iff.mp hnew] at h
  cases h

theorem new_of_note {t : Trail} {path other : String} {found : Bool}
    (h : (t.note path found).found.contains other = false) : t.found.contains other = false := by
  rw [note_found, Table.contains_insert, Bool.or_eq_false_iff] at h
  exact h.2

@[simp] theorem keep_paths (t : Trail) (f : LoadedFile) :
    (t.keep f).paths = f.source.path :: t.paths := rfl

/-- A file that is found has been visited. -/
theorem mem_visited {t : Trail} {path : String} (h : t.found.get? path = some true) :
    path ∈ t.visited := by
  rw [visited, List.mem_reverse, List.mem_map]
  exact ⟨(path, true), List.mem_filter.mpr ⟨Table.mem_entries_of_get? h, rfl⟩, rfl⟩

end Trail

section Walk

variable (files : String → Option Bytes) (target : LanguageTarget)

/-- Whether a walk to some paths, one after the other, leads from a trail to another one. -/
inductive Walk : List String → Trail → Trail → Prop
  | nil (t : Trail) : Walk [] t t
  /-- What has been looked for is not looked for again. -/
  | known {path : String} {paths : List String} {t t' : Trail}
      (hfound : t.found.contains path = true) (rest : Walk paths t t') :
      Walk (path :: paths) t t'
  | missing {path : String} {paths : List String} {t t' : Trail}
      (hnew : t.found.contains path = false) (hfile : files path = none)
      (rest : Walk paths (t.note path false) t') : Walk (path :: paths) t t'
  | present {path : String} {paths : List String} {bs : Bytes} {tree : SyntaxTree}
      {t t₁ t' : Trail} (hnew : t.found.contains path = false) (hfile : files path = some bs)
      (htree : SyntaxTree.ofText? (Host.textOf bs) = some tree)
      (inner : Walk (targets files path tree) (t.note path true) t₁)
      (rest : Walk paths (t₁.keep (kept files target path bs tree)) t') :
      Walk (path :: paths) t t'

end Walk

namespace Walk

variable {files : String → Option Bytes} {target : LanguageTarget}
variable {paths : List String} {t t' t'' : Trail}

/-- One walk after the other is a walk. -/
theorem append {others : List String} (h : Walk files target paths t t')
    (h' : Walk files target others t' t'') : Walk files target (paths ++ others) t t'' := by
  induction h with
  | nil => exact h'
  | known hfound _ ih => exact .known hfound (ih h')
  | missing hnew hfile _ ih => exact .missing hnew hfile (ih h')
  | present hnew hfile htree inner _ _ ih => exact .present hnew hfile htree inner (ih h')

/-- There is only one way to walk. -/
theorem deterministic (h : Walk files target paths t t') (h' : Walk files target paths t t'') :
    t' = t'' := by
  induction h generalizing t'' with
  | nil => cases h' with
    | nil => rfl
  | known hfound _ ih => cases h' with
    | known _ rest => exact ih rest
    | missing hnew => simp [hfound] at hnew
    | present hnew => simp [hfound] at hnew
  | missing hnew hfile _ ih => cases h' with
    | known hfound => simp [hfound] at hnew
    | missing _ _ rest => exact ih rest
    | present _ hfile' => simp [hfile] at hfile'
  | present hnew hfile htree _ _ ih₁ ih₂ => cases h' with
    | known hfound => simp [hfound] at hnew
    | missing _ hfile' => simp [hfile] at hfile'
    | present _ hfile' htree' inner rest =>
      obtain rfl := Option.some.inj (hfile.symm.trans hfile')
      obtain rfl := Option.some.inj (htree.symm.trans htree')
      obtain rfl := ih₁ inner
      exact ih₂ rest

/-! ## What a walk finds -/

/-- What has been found out stays. -/
theorem get?_found (h : Walk files target paths t t') {path : String} {found : Bool}
    (hpath : t.found.get? path = some found) : t'.found.get? path = some found := by
  induction h with
  | nil => exact hpath
  | known _ _ ih => exact ih hpath
  | missing hnew _ _ ih => exact ih (Trail.get?_note_of_new hnew hpath)
  | present hnew _ _ _ _ ih₁ ih₂ => exact ih₂ (ih₁ (Trail.get?_note_of_new hnew hpath))

theorem contains_found (h : Walk files target paths t t') {path : String}
    (hpath : t.found.contains path = true) : t'.found.contains path = true := by
  obtain ⟨found, hfound⟩ := Option.isSome_iff_exists.mp hpath
  exact Option.isSome_iff_exists.mpr ⟨found, h.get?_found hfound⟩

/-- A walk gets where it is to go. -/
theorem contains_of_mem (h : Walk files target paths t t') {path : String} (hpath : path ∈ paths) :
    t'.found.contains path = true := by
  induction h with
  | nil => cases hpath
  | known hfound rest ih =>
      rcases List.mem_cons.mp hpath with rfl | hpath
      · exact rest.contains_found hfound
      · exact ih hpath
  | missing _ _ rest ih =>
      rcases List.mem_cons.mp hpath with rfl | hpath
      · exact rest.contains_found (by simp)
      · exact ih hpath
  | present _ _ _ inner rest _ ih =>
      rcases List.mem_cons.mp hpath with rfl | hpath
      · exact rest.contains_found (inner.contains_found (by simp))
      · exact ih hpath

/-- What is kept had not been looked for before. -/
theorem mem_paths (h : Walk files target paths t t') {path : String} (hpath : path ∈ t'.paths) :
    path ∈ t.paths ∨ t.found.contains path = false := by
  induction h with
  | nil => exact .inl hpath
  | known _ _ ih => exact ih hpath
  | missing _ _ _ ih => exact (ih hpath).imp_right Trail.new_of_note
  | @present other _ _ _ t t₁ _ hnew _ _ inner _ ih₁ ih₂ =>
      -- What was not known after the inner walk was not known before it.
      have hback : t₁.found.contains path = false → t.found.contains path = false := by
        intro hnot
        rw [← Bool.not_eq_true] at hnot ⊢
        exact fun hfound ↦ hnot (inner.contains_found (by simp [hfound]))
      rcases ih₂ hpath with hkept | hnot
      · rcases List.mem_cons.mp hkept with rfl | hkept
        · exact .inr hnew
        · exact (ih₁ hkept).imp_right Trail.new_of_note
      · exact .inr (hback hnot)

/-- What is kept stays kept. -/
theorem subset_paths (h : Walk files target paths t t') : t.paths ⊆ t'.paths := by
  induction h with
  | nil => exact List.Subset.refl _
  | known _ _ ih => exact ih
  | missing _ _ _ ih => exact ih
  | present _ _ _ _ _ ih₁ ih₂ => exact fun path hpath ↦ ih₂ (List.mem_cons_of_mem _ (ih₁ hpath))

/-- A file that a walk finds is kept by the end of it, and can be reached from where the walk was to
go. -/
theorem found_cases (h : Walk files target paths t t') {path : String}
    (hpath : t'.found.get? path = some true) :
    t.found.get? path = some true ∨
      (path ∈ t'.paths ∧ ∃ start ∈ paths, (files start).isSome ∧ Reaches files start path) := by
  induction h with
  | nil => exact .inl hpath
  | known _ _ ih =>
      refine (ih hpath).imp_right fun ⟨hkept, start, hstart, hreach⟩ ↦ ?_
      exact ⟨hkept, start, List.mem_cons_of_mem _ hstart, hreach⟩
  | missing _ _ _ ih =>
      rcases ih hpath with hfound | ⟨hkept, start, hstart, hreach⟩
      · rcases Trail.get?_note_cases hfound with ⟨-, hfalse⟩ | hfound
        · cases hfalse
        · exact .inl hfound
      · exact .inr ⟨hkept, start, List.mem_cons_of_mem _ hstart, hreach⟩
  | @present other _ _ _ _ _ _ _ hfile htree _ rest ih₁ ih₂ =>
      have hthere : (files other).isSome = true := by simp [hfile]
      rcases ih₂ hpath with hfound | ⟨hkept, start, hstart, hreach⟩
      · rcases ih₁ hfound with hfound | ⟨hkept, start, hstart, hstarts, hreach⟩
        · rcases Trail.get?_note_cases hfound with ⟨rfl, -⟩ | hfound
          · exact .inr ⟨rest.subset_paths (by simp [kept]), other, by simp, hthere, .refl⟩
          · exact .inl hfound
        · have himports := (imports_iff hfile htree).mpr ⟨hstart, hstarts⟩
          exact .inr ⟨rest.subset_paths (List.mem_cons_of_mem _ hkept), other, by simp, hthere,
            hreach.head himports⟩
      · exact .inr ⟨hkept, start, List.mem_cons_of_mem _ hstart, hreach⟩

end Walk

/-! ## What a walk keeps -/

/-- What holds of a trail all along a walk. -/
structure Trail.Sound (files : String → Option Bytes) (target : LanguageTarget) (t : Trail) :
    Prop where
  right : ∀ path found, t.found.get? path = some found → found = (files path).isSome
  nodup : t.paths.Nodup
  found : ∀ path ∈ t.paths, t.found.contains path = true
  kept : ∀ f ∈ t.files, ∃ bs tree, files f.source.path = some bs ∧
    SyntaxTree.ofText? (Host.textOf bs) = some tree ∧
    f = kept files target f.source.path bs tree
  closed : ∀ f ∈ t.files, ∀ path ∈ targets files f.source.path f.tree,
    t.found.contains path = true

namespace Trail.Sound

variable {files : String → Option Bytes} {target : LanguageTarget} {t : Trail} {path : String}

theorem start : Trail.start.Sound files target where
  right path found h := by simp [Trail.start] at h
  nodup := List.nodup_nil
  found path h := by cases h
  kept f h := by cases h
  closed f h := by cases h

/-- A file that is there is found where it is looked for. -/
theorem get?_found (h : t.Sound files target) (hpath : t.found.contains path = true)
    (hthere : (files path).isSome = true) : t.found.get? path = some true := by
  obtain ⟨found, hfound⟩ := Option.isSome_iff_exists.mp hpath
  rw [hfound, h.right path found hfound, hthere]

/-- What a kept file imports has been looked for. -/
theorem imported (h : t.Sound files target) {imported : String} (hpath : path ∈ t.paths)
    (himports : Imports files path imported) : t.found.contains imported = true := by
  obtain ⟨f, hf, rfl⟩ := List.mem_map.mp hpath
  obtain ⟨bs, tree, hfile, htree, hkept⟩ := h.kept f hf
  refine h.closed f hf imported ?_
  rw [hkept]
  exact ((imports_iff hfile htree).mp himports).1

theorem note (h : t.Sound files target) {found : Bool} (hfound : found = (files path).isSome) :
    (t.note path found).Sound files target where
  right other found' hother := by
    rcases Trail.get?_note_cases hother with ⟨rfl, rfl⟩ | hother
    · exact hfound
    · exact h.right other found' hother
  nodup := h.nodup
  found other hother := by simp [h.found other hother]
  kept := h.kept
  closed f hf other hother := by simp [h.closed f hf other hother]

theorem keep (h : t.Sound files target) {bs : Bytes} {tree : SyntaxTree}
    (hfile : files path = some bs) (htree : SyntaxTree.ofText? (Host.textOf bs) = some tree)
    (hnew : path ∉ t.paths) (hfound : t.found.contains path = true)
    (htargets : ∀ other ∈ targets files path tree, t.found.contains other = true) :
    (t.keep (Compile.kept files target path bs tree)).Sound files target where
  right := h.right
  nodup := List.nodup_cons.mpr ⟨hnew, h.nodup⟩
  found other hother := by
    rcases List.mem_cons.mp hother with rfl | hother
    · exact hfound
    · exact h.found other hother
  kept f hf := by
    rcases List.mem_cons.mp hf with rfl | hf
    · exact ⟨bs, tree, hfile, htree, rfl⟩
    · exact h.kept f hf
  closed f hf := by
    rcases List.mem_cons.mp hf with rfl | hf
    · exact htargets
    · exact h.closed f hf

/-- A file can be kept after a walk to its imports. -/
theorem visit (h : t.Sound files target) {t₁ : Trail} {bs : Bytes} {tree : SyntaxTree}
    (hnew : t.found.contains path = false) (hfile : files path = some bs)
    (htree : SyntaxTree.ofText? (Host.textOf bs) = some tree)
    (inner : Walk files target (targets files path tree) (t.note path true) t₁)
    (h₁ : t₁.Sound files target) :
    (t₁.keep (Compile.kept files target path bs tree)).Sound files target := by
  have hpath : path ∉ t₁.paths := by
    intro hkept
    rcases inner.mem_paths hkept with hkept | hnot
    · simp [h.found path hkept] at hnew
    · simp at hnot
  exact h₁.keep hfile htree hpath (inner.contains_found (by simp))
    fun other hother ↦ inner.contains_of_mem hother

end Trail.Sound

/-! ## The order of a walk -/

/-- Whether each file, the last one first, comes after those that it imports, unless these lead back
to it. -/
def Ordered (files : String → Option Bytes) : List String → Prop
  | [] => True
  | path :: paths =>
    (∀ imported, Imports files path imported → imported ∈ paths ∨ Reaches files imported path) ∧
      Ordered files paths

namespace Walk

variable {files : String → Option Bytes} {target : LanguageTarget}
variable {paths : List String} {t t' : Trail}

theorem sound (h : Walk files target paths t t') (ht : t.Sound files target) :
    t'.Sound files target := by
  induction h with
  | nil => exact ht
  | known _ _ ih => exact ih ht
  | missing _ hfile _ ih => exact ih (ht.note (by simp [hfile]))
  | present hnew hfile htree inner _ ih₁ ih₂ =>
      exact ih₂ (ht.visit hnew hfile htree inner (ih₁ (ht.note (by simp [hfile]))))

/-- A walk keeps files in order, as long as the files that it is in the middle of lead to where it
is to go. -/
theorem ordered (h : Walk files target paths t t') (ht : t.Sound files target)
    (hopen : ∀ path, t.found.get? path = some true → path ∉ t.paths →
      ∀ start ∈ paths, (files start).isSome → Reaches files path start)
    (hordered : Ordered files t.paths) : Ordered files t'.paths := by
  induction h with
  | nil => exact hordered
  | known _ _ ih =>
      exact ih ht (fun path hpath hnot start hstart ↦
        hopen path hpath hnot start (List.mem_cons_of_mem _ hstart)) hordered
  | @missing other _ _ _ _ hfile _ ih =>
      refine ih (ht.note (by simp [hfile])) (fun path hpath hnot start hstart ↦ ?_) hordered
      rcases Trail.get?_note_cases hpath with ⟨-, hfalse⟩ | hpath
      · cases hfalse
      · exact hopen path hpath hnot start (List.mem_cons_of_mem _ hstart)
  | @present other _ _ _ t t₁ _ hnew hfile htree inner _ ih₁ ih₂ =>
      have hthere : (files other).isSome = true := by simp [hfile]
      have ht₁ : t₁.Sound files target := inner.sound (ht.note hthere.symm)
      -- A file in the middle of the inner walk is the one that it starts from or leads to it.
      have hinner : ∀ path, (t.note other true).found.get? path = some true → path ∉ t.paths →
          Reaches files path other := by
        intro path hpath hnot
        rcases Trail.get?_note_cases hpath with ⟨rfl, -⟩ | hpath
        · exact .refl
        · exact hopen path hpath hnot other (by simp) hthere
      have hordered₁ : Ordered files t₁.paths := by
        refine ih₁ (ht.note hthere.symm) (fun path hpath hnot start hstart hthere ↦ ?_) hordered
        exact (hinner path hpath hnot).tail ((imports_iff hfile htree).mpr ⟨hstart, hthere⟩)
      refine ih₂ (ht.visit hnew hfile htree inner ht₁) ?_ ⟨?_, hordered₁⟩
      · intro path hpath hnot start hstart
        rw [Trail.keep_paths, List.mem_cons, not_or] at hnot
        rcases inner.found_cases hpath with hfound | ⟨hkept, -⟩
        · rcases Trail.get?_note_cases hfound with ⟨rfl, -⟩ | hfound
          · exact absurd rfl hnot.1
          · exact hopen path hfound (fun hkept ↦ hnot.2 (inner.subset_paths hkept)) start
              (List.mem_cons_of_mem _ hstart)
        · exact absurd hkept hnot.2
      · intro imported himports
        have himported := ((imports_iff hfile htree).mp himports).1
        rcases inner.found_cases (ht₁.get?_found (inner.contains_of_mem himported) himports.isSome)
          with hfound | ⟨hkept, -⟩
        · by_cases hkept : imported ∈ t.paths
          · exact .inl (inner.subset_paths hkept)
          · exact .inr (hinner imported hfound hkept)
        · exact .inl hkept

end Walk

/-- In an order of files, the last one first, a file stands behind one that it imports. -/
theorem Ordered.sublist {files : String → Option Bytes} {paths : List String}
    (h : Ordered files paths) {importer imported : String} (hmem : importer ∈ paths)
    (himports : Imports files importer imported) (hback : ¬ Reaches files imported importer) :
    [importer, imported].Sublist paths := by
  induction paths with
  | nil => cases hmem
  | cons path paths ih =>
      rcases List.mem_cons.mp hmem with rfl | hmem
      · have himported := (h.1 imported himports).resolve_right hback
        exact (List.singleton_sublist.mpr himported).cons_cons importer
      · exact (ih h.2 hmem).cons path

/-! ## Whole walks -/

namespace Walk

variable {files : String → Option Bytes} {target : LanguageTarget}
variable {starts : List String} {t : Trail}

/-- A whole walk keeps what can be reached from where it was to go. -/
theorem mem_paths_iff (h : Walk files target starts .start t) {path : String} :
    path ∈ t.paths ↔ ∃ start ∈ starts, (files start).isSome ∧ Reaches files start path := by
  have ht := h.sound .start
  have hkept : ∀ path, t.found.contains path = true → (files path).isSome = true →
      path ∈ t.paths ∧ ∃ start ∈ starts, (files start).isSome ∧ Reaches files start path := by
    intro path hfound hthere
    rcases h.found_cases (ht.get?_found hfound hthere) with hstart | hkept
    · cases hstart
    · exact hkept
  constructor
  · intro hpath
    obtain ⟨f, hf, rfl⟩ := List.mem_map.mp hpath
    obtain ⟨bs, tree, hfile, -⟩ := ht.kept f hf
    exact (hkept _ (ht.found _ hpath) (by simp [hfile])).2
  · rintro ⟨start, hstart, hthere, hreach⟩
    induction hreach with
    | refl => exact (hkept start (h.contains_of_mem hstart) hthere).1
    | tail _ himports ih => exact (hkept _ (ht.imported ih himports) himports.isSome).1

/-- A whole walk keeps files in order. -/
theorem ordered_paths (h : Walk files target starts .start t) : Ordered files t.paths :=
  h.ordered .start (fun _ hpath ↦ nomatch hpath) trivial

end Walk

end PipedCompiler.Compile
