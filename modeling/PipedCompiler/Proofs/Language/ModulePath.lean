import PipedCompiler.Language.ModulePath

/-!
# Where paths lead

A path leads from segment to segment: a name goes down, two points go up, and at the root of an
absolute path there is no way up.  A relative import leads to where its specifier leads from the
directory of the file that imports, if that directory is written plainly and is not the root.
-/

namespace PipedCompiler.Language

/-! ## Segments -/

theorem segments_cons (c : Char) (path : List Char) :
    segments (c :: path) =
      if c = '/' then [] :: segments path else (segments path).modifyHead (c :: ·) := by
  simp [segments, List.splitOn, List.splitOnP_cons_eq_if_modifyHead]

theorem segments_append (before after : List Char) :
    segments (before ++ '/' :: after) = segments before ++ segments after :=
  List.splitOnP_append_cons before after (by simp)

/-- There is no slash in a segment. -/
theorem slash_notMem_segments {path segment : List Char} (h : segment ∈ segments path) :
    '/' ∉ segment := by
  induction path generalizing segment with
  | nil =>
      obtain rfl : segment = [] := by simpa [segments] using h
      simp
  | cons c path ih =>
      rw [segments_cons] at h
      by_cases hc : c = '/'
      · rw [if_pos hc] at h
        rcases List.mem_cons.mp h with rfl | h
        · simp
        · exact ih h
      · rw [if_neg hc] at h
        cases hs : segments path with
        | nil => simp [hs] at h
        | cons first more =>
            rw [hs] at h ih
            rcases List.mem_cons.mp h with rfl | h
            · exact List.not_mem_cons_of_ne_of_not_mem (Ne.symm hc) (ih (.head _))
            · exact ih (.tail _ h)

theorem head?_intercalate {joined : List (List Char)} (hslash : ∀ s ∈ joined, '/' ∉ s)
    (hnil : ∀ s ∈ joined, s ≠ []) : (['/'].intercalate joined).head? ≠ some '/' := by
  cases joined with
  | nil => simp
  | cons s joined =>
      cases s with
      | nil => exact absurd rfl (hnil [] (.head _))
      | cons c s =>
          have hc : c ≠ '/' := by
            rintro rfl
            exact hslash _ (.head _) (.head _)
          cases joined with
          | nil => simpa using hc
          | cons t joined =>
              rw [List.intercalate_cons_of_ne_nil (List.cons_ne_nil _ _)]
              simpa using hc

/-! ## Locations -/

/-- Where a path leads to. -/
structure Location where
  /-- Whether from the root. -/
  isAbsolute : Bool
  /-- How far up. -/
  ups : Nat
  /-- The names from there downwards, the last one first. -/
  names : List (List Char)
  deriving Repr, DecidableEq

namespace Location

/-- Where paths begin. -/
def start (isAbsolute : Bool) : Location := ⟨isAbsolute, 0, []⟩

/-- Goes on by one segment. -/
def enter (l : Location) (segment : List Char) : Location :=
  if segment = [] ∨ segment = ['.'] then l
  else if segment = ['.', '.'] then
    match l.names with
    | _ :: names => { l with names }
    | [] => if l.isAbsolute then l else { l with ups := l.ups + 1 }
  else { l with names := segment :: l.names }

/-- Where a path leads to. -/
def ofPath (path : List Char) : Location :=
  (segments path).foldl enter (start (path.head? == some '/'))

variable (l : Location)

@[simp] theorem enter_nil : l.enter [] = l := rfl

@[simp] theorem enter_point : l.enter ['.'] = l := rfl

theorem enter_name {name : List Char} (hnil : name ≠ []) (hpoint : name ≠ ['.'])
    (hup : name ≠ ['.', '.']) : l.enter name = { l with names := name :: l.names } := by
  simp [enter, hnil, hpoint, hup]

theorem enter_up_name (name : List Char) :
    ({ l with names := name :: l.names } : Location).enter ['.', '.'] = l := rfl

@[simp] theorem isAbsolute_enter (segment : List Char) :
    (l.enter segment).isAbsolute = l.isAbsolute := by
  rw [enter]
  split
  · rfl
  · split
    · split
      · rfl
      · split <;> rfl
    · rfl

@[simp] theorem isAbsolute_foldl (segments : List (List Char)) :
    (segments.foldl enter l).isAbsolute = l.isAbsolute := by
  induction segments generalizing l with
  | nil => rfl
  | cons s segments ih => rw [List.foldl_cons, ih, isAbsolute_enter]

theorem isAbsolute_ofPath (path : List Char) :
    (ofPath path).isAbsolute = true ↔ path.head? = some '/' := by
  rw [ofPath, isAbsolute_foldl]
  exact beq_iff_eq

/-- Empty segments lead nowhere. -/
theorem foldl_filter (segments : List (List Char)) :
    (segments.filter (· ≠ [])).foldl enter l = segments.foldl enter l := by
  induction segments generalizing l with
  | nil => rfl
  | cons s segments ih =>
      cases s with
      | nil => simpa using ih l
      | cons c s => simpa using ih _

/-- Joined segments lead where the segments lead. -/
theorem foldl_segments_intercalate {joined : List (List Char)}
    (hslash : ∀ s ∈ joined, '/' ∉ s) :
    (segments (['/'].intercalate joined)).foldl enter l = joined.foldl enter l := by
  cases joined with
  | nil => rfl
  | cons s joined => rw [segments, List.splitOn_intercalate '/' hslash (List.cons_ne_nil _ _)]

theorem ofPath_slash (path : List Char) :
    ofPath ('/' :: path) = (segments path).foldl enter (start true) := by
  rw [ofPath, segments_cons, if_pos rfl]
  rfl

theorem ofPath_of_head? {path : List Char} (h : path.head? ≠ some '/') :
    ofPath path = (segments path).foldl enter (start false) := by
  rw [ofPath, beq_false_of_ne h]

/-- A path goes on from its directory. -/
theorem ofPath_append_slash {directory : List Char} (h : directory ≠ []) (path : List Char) :
    ofPath (directory ++ '/' :: path) = (segments path).foldl enter (ofPath directory) := by
  rw [ofPath, ofPath, segments_append, List.foldl_append]
  cases directory with
  | nil => exact absurd rfl h
  | cons c directory => rfl

end Location

/-! ## Folding -/

section Folding

variable {absolute : Bool} {before after : List (List Char)} {segment s : List Char}

/-- What folding in one more segment can do. -/
inductive Pushed (absolute : Bool) (before : List (List Char)) (segment : List Char) :
    List (List Char) → Prop
  | skipped (h : segment = [] ∨ segment = ['.']) : Pushed absolute before segment before
  | named (hnil : segment ≠ []) (hpoint : segment ≠ ['.']) (hup : segment ≠ ['.', '.']) :
    Pushed absolute before segment (segment :: before)
  | taken {last : List Char} {more : List (List Char)} (hup : segment = ['.', '.'])
    (hbefore : before = last :: more) (hlast : last ≠ ['.', '.']) :
    Pushed absolute before segment more
  /-- Going up where nothing can be taken away, but not at the root. -/
  | kept (hup : segment = ['.', '.']) (habsolute : absolute = false) :
    Pushed absolute before segment (segment :: before)
  | dropped (hup : segment = ['.', '.']) (habsolute : absolute = true)
    (hbefore : before = [] ∨ ['.', '.'] ∈ before) : Pushed absolute before segment before

theorem pushed_pushSegment (absolute : Bool) (before : List (List Char)) (segment : List Char) :
    Pushed absolute before segment (pushSegment absolute before segment) := by
  rw [pushSegment.eq_def]
  split
  · next h => exact .skipped (by simpa using h)
  · next h =>
      obtain ⟨hnil, hpoint⟩ : segment ≠ [] ∧ segment ≠ ['.'] := by simpa using h
      split
      · next hup =>
          cases before with
          | nil =>
              cases absolute with
              | true => exact .dropped hup rfl (.inl rfl)
              | false => exact .kept hup rfl
          | cons last more =>
              show Pushed absolute (last :: more) segment
                (if last ≠ ['.', '.'] then more
                else if absolute then last :: more else segment :: last :: more)
              by_cases hlast : last = ['.', '.']
              · rw [if_neg (not_not_intro hlast)]
                cases absolute with
                | true => exact .dropped hup rfl (.inr (hlast ▸ .head _))
                | false => exact .kept hup rfl
              · rw [if_pos hlast]
                exact .taken hup rfl hlast
      · next hup => exact .named hnil hpoint hup

/-- Whether these are names, except that they may go up where there is no root. -/
def Plain (absolute : Bool) (before : List (List Char)) : Prop :=
  ∀ s ∈ before, s ≠ [] ∧ s ≠ ['.'] ∧ (absolute = true → s ≠ ['.', '.'])

namespace Pushed

theorem mem (hp : Pushed absolute before segment after) (h : s ∈ after) :
    s ∈ before ∨ s = segment ∧ s ≠ [] ∧ s ≠ ['.'] ∧ (absolute = true → s ≠ ['.', '.']) := by
  cases hp with
  | skipped => exact .inl h
  | dropped => exact .inl h
  | taken _ hbefore _ =>
      rw [hbefore]
      exact .inl (.tail _ h)
  | named hnil hpoint hup =>
      rcases List.mem_cons.mp h with rfl | h
      · exact .inr ⟨rfl, hnil, hpoint, fun _ ↦ hup⟩
      · exact .inl h
  | kept hup habsolute =>
      rcases List.mem_cons.mp h with rfl | h
      · subst hup habsolute
        exact .inr ⟨rfl, by simp⟩
      · exact .inl h

theorem plain (hp : Pushed absolute before segment after) (h : Plain absolute before) :
    Plain absolute after := by
  intro s hs
  rcases hp.mem hs with hs | ⟨-, hs⟩
  · exact h s hs
  · exact hs

/-- Folding in one more segment leads on by that segment. -/
theorem foldl_enter (hp : Pushed absolute before segment after)
    (hplain : segment = ['.', '.'] → Plain absolute before) :
    after.reverse.foldl Location.enter (.start absolute) =
      (before.reverse.foldl Location.enter (.start absolute)).enter segment := by
  cases hp with
  | skipped h =>
      rcases h with rfl | rfl
      · exact (Location.enter_nil _).symm
      · exact (Location.enter_point _).symm
  | named => rw [List.reverse_cons, List.foldl_append, List.foldl_cons, List.foldl_nil]
  | kept => rw [List.reverse_cons, List.foldl_append, List.foldl_cons, List.foldl_nil]
  | taken hup hbefore hlast =>
      subst hup hbefore
      obtain ⟨hnil, hpoint, -⟩ := hplain rfl _ (.head _)
      rw [List.reverse_cons, List.foldl_append, List.foldl_cons, List.foldl_nil,
        Location.enter_name _ hnil hpoint hlast, Location.enter_up_name]
  | dropped hup habsolute hbefore =>
      subst hup habsolute
      rcases hbefore with rfl | hbefore
      · rfl
      · exact absurd rfl ((hplain rfl _ hbefore).2.2 rfl)

end Pushed

/-- Folding in segments leads on by those segments. -/
theorem foldl_foldl_pushSegment {segments : List (List Char)}
    (hplain : ['.', '.'] ∈ segments → Plain absolute before) :
    (segments.foldl (pushSegment absolute) before).reverse.foldl Location.enter
        (.start absolute) =
      segments.foldl Location.enter (before.reverse.foldl Location.enter (.start absolute)) := by
  induction segments generalizing before with
  | nil => rfl
  | cons segment segments ih =>
      have hpushed := pushed_pushSegment absolute before segment
      rw [List.foldl_cons, List.foldl_cons, ih, hpushed.foldl_enter]
      · rintro rfl
        exact hplain (.head _)
      · intro hup
        exact hpushed.plain (hplain (.tail _ hup))

/-- Nothing but segments stands in what is folded. -/
theorem mem_foldl_pushSegment {segments : List (List Char)}
    (h : s ∈ segments.foldl (pushSegment absolute) before) :
    s ∈ before ∨ s ∈ segments ∧ s ≠ [] := by
  induction segments generalizing before with
  | nil => exact .inl h
  | cons segment segments ih =>
      rcases ih h with h | ⟨h, hnil⟩
      · rcases (pushed_pushSegment absolute before segment).mem h with h | ⟨rfl, hnil, -⟩
        · exact .inl h
        · exact .inr ⟨.head _, hnil⟩
      · exact .inr ⟨.tail _ h, hnil⟩

end Folding

/-! ## Joining -/

section Joining

variable {directory path : List Char}

theorem mem_segments_filter {s : List Char}
    (h : s ∈ ((segments directory).filter (· ≠ [])).reverse) :
    s ∈ segments directory ∧ s ≠ [] := by
  simpa using h

/-- What a joined path is made of is not empty and has no slash. -/
theorem folded_spec {absolute : Bool} {s : List Char}
    (h : s ∈ ((segments path).foldl (pushSegment absolute)
      ((segments directory).filter (· ≠ [])).reverse).reverse) : '/' ∉ s ∧ s ≠ [] := by
  rcases mem_foldl_pushSegment (List.mem_reverse.mp h) with hs | ⟨hs, hnil⟩
  · obtain ⟨hs, hnil⟩ := mem_segments_filter hs
    exact ⟨slash_notMem_segments hs, hnil⟩
  · exact ⟨slash_notMem_segments hs, hnil⟩

/-- A joined path is absolute if its directory is. -/
theorem head?_joinPath :
    (joinPath directory path).head? = some '/' ↔ directory.head? = some '/' := by
  rw [joinPath]
  by_cases habsolute : directory.head? = some '/'
  · rw [if_pos (beq_iff_eq.mpr habsolute)]
    exact iff_of_true rfl habsolute
  · rw [if_neg (by simpa using habsolute)]
    refine iff_of_false (head?_intercalate ?_ ?_) habsolute
    · exact fun s hs ↦ (folded_spec hs).1
    · exact fun s hs ↦ (folded_spec hs).2

/-- A joined path leads from its directory to where the path leads, if what the path takes away are
names. -/
theorem ofPath_joinPath
    (hplain : ['.', '.'] ∈ segments path → ∀ s ∈ segments directory,
      s ≠ ['.'] ∧ (directory.head? = some '/' → s ≠ ['.', '.'])) :
    Location.ofPath (joinPath directory path) =
      (segments path).foldl Location.enter (.ofPath directory) := by
  generalize habsolute : (directory.head? == some '/') = absolute
  have hafter : ((segments path).foldl (pushSegment absolute)
        ((segments directory).filter (· ≠ [])).reverse).reverse.foldl Location.enter
        (.start absolute) =
      (segments path).foldl Location.enter (.ofPath directory) := by
    rw [foldl_foldl_pushSegment]
    · rw [List.reverse_reverse, Location.foldl_filter, Location.ofPath, habsolute]
    · intro hup s hs
      obtain ⟨hs, hnil⟩ := mem_segments_filter hs
      obtain ⟨hpoint, hroot⟩ := hplain hup s hs
      exact ⟨hnil, hpoint, fun h ↦ hroot (beq_iff_eq.mp (habsolute.trans h))⟩
  rw [← hafter, ← Location.foldl_segments_intercalate _ fun s hs ↦ (folded_spec hs).1]
  cases absolute with
  | true =>
      rw [joinPath, habsolute]
      exact Location.ofPath_slash _
  | false =>
      have hhead := beq_eq_false_iff_ne.mp habsolute
      rw [Location.ofPath_of_head? (mt head?_joinPath.mp hhead), joinPath, habsolute]
      rfl

end Joining

/-! ## Relative imports -/

section Relative

/-- The specifier in the place of the file name of a path. -/
def beside (importer specifier : List Char) : List Char :=
  (importer.reverse.dropWhile (· ≠ '/')).reverse ++ specifier

/-- Either a path has no slash, or its last one stands between its directory and its file name. -/
theorem parentDirectory_cases (importer : List Char) :
    ('/' ∉ importer ∧ parentDirectory importer = [] ∧
      ∀ specifier, beside importer specifier = specifier) ∨
    (importer = parentDirectory importer ++ '/' :: fileName importer ∧
      ∀ specifier, beside importer specifier = parentDirectory importer ++ '/' :: specifier) := by
  have hsplit := List.takeWhile_append_dropWhile (p := (· ≠ '/')) (l := importer.reverse)
  cases hrest : importer.reverse.dropWhile (· ≠ '/') with
  | nil =>
      refine .inl ⟨?_, ?_, fun specifier ↦ ?_⟩
      · intro hslash
        have hall := List.all_takeWhile (p := (· ≠ '/')) (l := importer.reverse)
        rw [hrest, List.append_nil] at hsplit
        rw [hsplit, List.all_eq_true] at hall
        simpa using hall '/' (List.mem_reverse.mpr hslash)
      · rw [parentDirectory, hrest]
        rfl
      · rw [beside, hrest]
        rfl
  | cons c rest =>
      obtain rfl : c = '/' := by
        have hc := List.head?_dropWhile_not (· ≠ '/') importer.reverse
        rw [hrest] at hc
        simpa using hc
      refine .inr ⟨?_, fun specifier ↦ ?_⟩
      · rw [parentDirectory, fileName, hrest]
        rw [hrest] at hsplit
        simpa using congrArg List.reverse hsplit.symm
      · rw [beside, parentDirectory, hrest]
        simp

theorem head?_parentDirectory (importer : List Char) :
    (parentDirectory importer).head? = some '/' ↔
      importer.head? = some '/' ∧ parentDirectory importer ≠ [] := by
  rcases parentDirectory_cases importer with ⟨-, hnil, -⟩ | ⟨himporter, -⟩
  · simp [hnil]
  · generalize parentDirectory importer = directory at himporter ⊢
    cases directory with
    | nil => simp
    | cons c directory =>
        rw [himporter]
        simp

variable {importer specifier : List Char}

theorem head?_of_isRelative (h : isRelative specifier = true) : specifier.head? ≠ some '/' := by
  rintro hhead
  cases specifier with
  | nil => cases hhead
  | cons c specifier =>
      obtain rfl : c = '/' := by simpa using hhead
      simp [isRelative] at h

/-- A relative import leads from the directory of the file that imports to where its specifier
leads; the directory of a file that stands at the root is taken for nothing, though. -/
theorem importBase_location (hrelative : isRelative specifier = true) :
    ((Location.ofPath (importBase importer specifier)).isAbsolute = true ↔
      importer.head? = some '/' ∧ parentDirectory importer ≠ []) ∧
    ((['.', '.'] ∈ segments specifier → ∀ s ∈ segments (parentDirectory importer),
        s ≠ ['.'] ∧ (importer.head? = some '/' → s ≠ ['.', '.'])) →
      Location.ofPath (importBase importer specifier) =
        if importer.head? = some '/' ∧ parentDirectory importer = [] then .ofPath specifier
        else .ofPath (beside importer specifier)) := by
  have hbase : importBase importer specifier = joinPath (parentDirectory importer) specifier :=
    if_pos hrelative
  have hspecifier : specifier.head? ≠ some '/' := head?_of_isRelative hrelative
  rw [hbase, Location.isAbsolute_ofPath, head?_joinPath, head?_parentDirectory]
  refine ⟨Iff.rfl, fun hplain ↦ ?_⟩
  rw [ofPath_joinPath fun hup s hs ↦
    ⟨(hplain hup s hs).1, fun hhead ↦
      (hplain hup s hs).2 ((head?_parentDirectory importer).mp hhead).1⟩]
  rcases parentDirectory_cases importer with ⟨-, hnil, hbeside⟩ | ⟨himporter, hbeside⟩
  · rw [hnil, hbeside, ite_self, Location.ofPath_of_head? hspecifier]
    rfl
  · rw [hbeside]
    by_cases hnil : parentDirectory importer = []
    · have hhead : importer.head? = some '/' := by
        rw [himporter, hnil]
        rfl
      rw [hnil, if_pos ⟨hhead, rfl⟩, Location.ofPath_of_head? hspecifier]
      rfl
    · rw [if_neg fun h ↦ hnil h.2, Location.ofPath_append_slash hnil]

theorem importBase_location_upwards :
    Location.ofPath (importBase "/src/lib/a.ts".toList "../../../b".toList) =
      .ofPath (beside "/src/lib/a.ts".toList "../../../b".toList) := by
  have h := (@importBase_location "/src/lib/a.ts".toList "../../../b".toList rfl).2 (by decide)
  rwa [if_neg (by decide)] at h

/-- A file at the root imports from elsewhere. -/
theorem importBase_at_root :
    Location.ofPath (importBase "/a.ts".toList "./b".toList) ≠
      .ofPath (beside "/a.ts".toList "./b".toList) := by
  decide

end Relative

/-! ## Emitted paths -/

/-- The path that a module is emitted to starts as its own does. -/
theorem stem_prefix (path : List Char) : stem path <+: path := by
  have hname : fileName path <:+ path := by
    rw [fileName, ← List.reverse_reverse path, List.reverse_suffix, List.reverse_reverse]
    exact List.takeWhile_prefix _
  obtain ⟨directory, hpath⟩ := hname
  have hlength : path.length = directory.length + (fileName path).length := by
    rw [← List.length_append, hpath]
  have hdirectory : path.take (path.length - (fileName path).length) = directory :=
    calc path.take (path.length - (fileName path).length)
      _ = (directory ++ fileName path).take directory.length := by
          rw [hpath, hlength, Nat.add_sub_cancel]
      _ = directory := List.take_left
  rw [stem]
  split
  · next a c before hsplit =>
    have hsuffix : c :: before <:+ (fileName path).reverse :=
      (List.suffix_cons a _).trans (hsplit ▸ List.dropWhile_suffix _)
    have hstarts : (c :: before).reverse <+: fileName path := by
      rw [← List.reverse_reverse (fileName path)]
      exact List.reverse_prefix.mpr hsuffix
    have hstem := (List.prefix_append_right_inj directory).mpr hstarts
    rwa [hdirectory, ← hpath]
  · exact List.prefix_refl path

end PipedCompiler.Language
