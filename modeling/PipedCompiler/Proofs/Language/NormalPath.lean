import Mathlib.Data.List.Induction
import PipedCompiler.Proofs.Language.ModulePath
import PipedCompiler.Proofs.Text.Runs

/-!
# Normal paths

A path is normal if no segment of it could be left out.  Each location has one normal path.  Folding
segments into a path is going on from its location, and from a normal path relative imports lead to
normal paths: so they lead to one place by one path.
-/

namespace PipedCompiler.Language

/-! ## Names -/

/-- Whether a segment is a name. -/
def IsName (s : List Char) : Prop := s ≠ [] ∧ s ≠ ['.'] ∧ s ≠ ['.', '.']

/-- Whether a path has no empty segments and no points in place of a name, except that it may start
with some ways up.  An absolute path starts with a slash and may not. -/
def IsNormal (path : List Char) : Prop :=
  if path.head? = some '/' then ∀ s ∈ segments path.tail, IsName s
  else ∀ s ∈ (segments path).dropWhile (· = ['.', '.']), IsName s

instance (s : List Char) : Decidable (IsName s) :=
  inferInstanceAs (Decidable (s ≠ [] ∧ s ≠ ['.'] ∧ s ≠ ['.', '.']))

instance (path : List Char) : Decidable (IsNormal path) :=
  inferInstanceAs (Decidable (if path.head? = some '/' then _ else _))

theorem isNormal_slash {path : List Char} :
    IsNormal ('/' :: path) ↔ ∀ s ∈ segments path, IsName s :=
  iff_of_eq (if_pos rfl)

theorem isNormal_of_head? {path : List Char} (h : path.head? ≠ some '/') :
    IsNormal path ↔ ∀ s ∈ (segments path).dropWhile (· = ['.', '.']), IsName s :=
  iff_of_eq (if_neg h)

theorem IsName.append {s ext : List Char} (h : IsName s) (hext : 2 ≤ ext.length) :
    IsName (s ++ ext) := by
  have hpos := List.length_pos_iff.mpr h.1
  have hne {t : List Char} (ht : t.length ≤ 2) : s ++ ext ≠ t := by
    rintro rfl
    rw [List.length_append] at ht
    omega
  exact ⟨hne (by decide), hne (by decide), hne (by decide)⟩

/-! ## Segments one behind the other -/

theorem intercalate_concat (front : List (List Char)) (last : List Char) :
    ['/'].intercalate (front ++ [last]) = front.flatMap (· ++ ['/']) ++ last := by
  induction front with
  | nil => simp
  | cons s front ih =>
      rw [List.cons_append, List.intercalate_cons_of_ne_nil (by simp), ih, List.flatMap_cons]
      simp

theorem getLast?_flatMap_slash (front : List (List Char)) :
    ∀ c ∈ (front.flatMap (· ++ ['/'])).getLast?, c = '/' := by
  rcases List.eq_nil_or_concat front with rfl | ⟨front, s, rfl⟩
  · exact nofun
  · intro c hc
    rw [List.concat_eq_append, List.flatMap_append, List.flatMap_singleton, ← List.append_assoc,
      List.getLast?_concat] at hc
    exact (Option.some.inj hc).symm

/-- What follows a slash is the file name, if there is no slash in it. -/
theorem fileName_append {front last : List Char} (hfront : ∀ c ∈ front.getLast?, c = '/')
    (hlast : '/' ∉ last) : fileName (front ++ last) = last := by
  have hrun : ∀ c ∈ last.reverse, decide (c ≠ '/') = true := by
    intro c hc
    refine decide_eq_true ?_
    rintro rfl
    exact hlast (List.mem_reverse.mp hc)
  have hhead : ∀ c ∈ front.reverse.head?, decide (c ≠ '/') = false := by
    intro c hc
    rw [List.head?_reverse] at hc
    exact decide_eq_false (not_not_intro (hfront c hc))
  rw [fileName, List.reverse_append, Text.takeWhile_append_of_head hrun hhead, List.reverse_reverse]

/-! ## Folding in single segments -/

section Pushing

variable {absolute : Bool} {before more : List (List Char)} {s last : List Char}

theorem pushSegment_skipped (h : s = [] ∨ s = ['.']) : pushSegment absolute before s = before := by
  rcases h with rfl | rfl <;> rfl

theorem pushSegment_name (h : IsName s) : pushSegment absolute before s = s :: before := by
  obtain ⟨hnil, hpoint, hup⟩ := h
  rw [pushSegment.eq_def, if_neg (by simp [hnil, hpoint]), if_neg hup]

theorem pushSegment_back (h : last ≠ ['.', '.']) :
    pushSegment absolute (last :: more) ['.', '.'] = more :=
  if_pos h

/-- Where only ways up stand, one more goes on top of them. -/
theorem pushSegment_up (ups : Nat) :
    pushSegment false (List.replicate ups ['.', '.']) ['.', '.'] =
      List.replicate (ups + 1) ['.', '.'] := by
  cases ups <;> rfl

end Pushing

/-! ## Locations -/

namespace Location

/-- Whether a location is one that a path leads to. -/
structure Proper (l : Location) : Prop where
  names : ∀ s ∈ l.names, IsName s ∧ '/' ∉ s
  root : l.isAbsolute = true → l.ups = 0

/-- The segments of the normal path to a location, the last one first. -/
def stack (l : Location) : List (List Char) :=
  l.names ++ List.replicate l.ups ['.', '.']

theorem reverse_stack (l : Location) :
    l.stack.reverse = List.replicate l.ups ['.', '.'] ++ l.names.reverse := by
  rw [stack, List.reverse_append, List.reverse_replicate]

/-- The normal path to a location. -/
def path (l : Location) : List Char :=
  if l.isAbsolute then '/' :: ['/'].intercalate l.stack.reverse
  else ['/'].intercalate l.stack.reverse

theorem proper_start (isAbsolute : Bool) : (start isAbsolute).Proper :=
  ⟨nofun, fun _ ↦ rfl⟩

/-- What going on by a segment can do. -/
inductive Entered (l : Location) (segment : List Char) : Location → Prop
  | skipped (h : segment = [] ∨ segment = ['.']) : Entered l segment l
  | named (h : IsName segment) : Entered l segment { l with names := segment :: l.names }
  | back {name : List Char} {names : List (List Char)} (hup : segment = ['.', '.'])
    (hnames : l.names = name :: names) : Entered l segment { l with names }
  | up (hup : segment = ['.', '.']) (hnames : l.names = []) (hroot : l.isAbsolute = false) :
    Entered l segment { l with ups := l.ups + 1 }
  | stays (hup : segment = ['.', '.']) (hnames : l.names = []) (hroot : l.isAbsolute = true) :
    Entered l segment l

theorem entered_enter (l : Location) (segment : List Char) :
    l.Entered segment (l.enter segment) := by
  by_cases hskip : segment = [] ∨ segment = ['.']
  · rw [enter, if_pos hskip]
    exact .skipped hskip
  by_cases hup : segment = ['.', '.']
  · rw [enter, if_neg hskip, if_pos hup]
    split
    · next name names hnames => exact .back hup hnames
    · next hnames =>
      by_cases hroot : l.isAbsolute = true
      · rw [if_pos hroot]
        exact .stays hup hnames hroot
      · rw [if_neg hroot]
        exact .up hup hnames (Bool.eq_false_iff.mpr hroot)
  · rw [not_or] at hskip
    rw [l.enter_name hskip.1 hskip.2 hup]
    exact .named ⟨hskip.1, hskip.2, hup⟩

variable {l : Location} {segment : List Char}

theorem Proper.enter (hl : l.Proper) (hslash : '/' ∉ segment) : (l.enter segment).Proper := by
  have hentered := l.entered_enter segment
  generalize l.enter segment = l' at hentered
  cases hentered with
  | skipped => exact hl
  | stays => exact hl
  | named h => exact ⟨List.forall_mem_cons.mpr ⟨⟨h, hslash⟩, hl.names⟩, hl.root⟩
  | back hup hnames =>
      have hall := hl.names
      rw [hnames, List.forall_mem_cons] at hall
      exact ⟨hall.2, hl.root⟩
  | up hup hnames hroot => exact ⟨hl.names, fun h ↦ nomatch hroot.symm.trans h⟩

theorem Proper.foldl (hl : l.Proper) {segments : List (List Char)}
    (hslash : ∀ s ∈ segments, '/' ∉ s) : (segments.foldl Location.enter l).Proper := by
  induction segments generalizing l with
  | nil => exact hl
  | cons s segments ih =>
      rw [List.forall_mem_cons] at hslash
      exact ih (hl.enter hslash.1) hslash.2

/-- Paths lead to proper locations. -/
theorem proper_ofPath (path : List Char) : (ofPath path).Proper :=
  (proper_start _).foldl fun _ ↦ slash_notMem_segments

/-- Folding in one more segment is going on by it. -/
theorem Proper.pushSegment_stack (hl : l.Proper) (segment : List Char) :
    pushSegment l.isAbsolute l.stack segment = (l.enter segment).stack := by
  have hentered := l.entered_enter segment
  generalize l.enter segment = l' at hentered
  cases hentered with
  | skipped h => exact pushSegment_skipped h
  | named h => exact pushSegment_name h
  | @back name names hup hnames =>
      have hname := (hl.names name (hnames ▸ List.mem_cons_self)).1
      rw [stack, hnames, hup]
      exact pushSegment_back hname.2.2
  | up hup hnames hroot =>
      rw [stack, hnames, hup, hroot]
      exact pushSegment_up l.ups
  | stays hup hnames hroot =>
      rw [stack, hnames, hup, hroot, hl.root hroot]
      rfl

theorem Proper.foldl_pushSegment_stack (hl : l.Proper) {segments : List (List Char)}
    (hslash : ∀ s ∈ segments, '/' ∉ s) :
    segments.foldl (pushSegment l.isAbsolute) l.stack =
      (segments.foldl Location.enter l).stack := by
  induction segments generalizing l with
  | nil => rfl
  | cons s segments ih =>
      rw [List.forall_mem_cons] at hslash
      have hrest := ih (hl.enter hslash.1) hslash.2
      rw [isAbsolute_enter] at hrest
      rw [List.foldl_cons, List.foldl_cons, hl.pushSegment_stack, hrest]

/-- A segment is folded in behind those of a location as it is entered there. -/
theorem Proper.foldl_stack_enter (hl : l.Proper) (hrelative : l.isAbsolute = false)
    (absolute : Bool) (before : List (List Char)) :
    (l.enter segment).stack.reverse.foldl (pushSegment absolute) before =
      pushSegment absolute (l.stack.reverse.foldl (pushSegment absolute) before) segment := by
  have hentered := l.entered_enter segment
  generalize l.enter segment = l' at hentered
  cases hentered with
  | skipped h => rw [pushSegment_skipped h]
  | named h =>
      have hstack : ({ l with names := segment :: l.names } : Location).stack.reverse =
          l.stack.reverse ++ [segment] := by
        simp [stack]
      rw [hstack, List.foldl_append, List.foldl_cons, List.foldl_nil]
  | @back name names hup hnames =>
      have hname := (hl.names name (hnames ▸ List.mem_cons_self)).1
      have hstack : l.stack.reverse = ({ l with names } : Location).stack.reverse ++ [name] := by
        simp [stack, hnames]
      rw [hup, hstack, List.foldl_append, List.foldl_cons, List.foldl_nil, pushSegment_name hname,
        pushSegment_back hname.2.2]
  | up hup hnames =>
      have hstack : ({ l with ups := l.ups + 1 } : Location).stack.reverse =
          l.stack.reverse ++ [segment] := by
        rw [reverse_stack, reverse_stack, hnames, hup, List.reverse_nil, List.append_nil,
          List.append_nil, List.replicate_succ']
      rw [hstack, List.foldl_append, List.foldl_cons, List.foldl_nil]
  | stays hup hnames hroot => exact nomatch hrelative.symm.trans hroot

/-- Segments are folded in as those are that they fold to by themselves. -/
theorem foldl_stack_foldl (absolute : Bool) (before : List (List Char))
    {segments : List (List Char)} (hslash : ∀ s ∈ segments, '/' ∉ s) :
    (segments.foldl enter (start false)).stack.reverse.foldl (pushSegment absolute) before =
      segments.foldl (pushSegment absolute) before := by
  induction segments using List.reverseRecOn with
  | nil => rfl
  | append_singleton segments s ih =>
      rw [List.forall_mem_append] at hslash
      have hproper := (proper_start false).foldl hslash.1
      rw [List.foldl_append, List.foldl_append, List.foldl_cons, List.foldl_cons, List.foldl_nil,
        List.foldl_nil, ← ih hslash.1]
      exact hproper.foldl_stack_enter (isAbsolute_foldl _ _) absolute before

end Location

/-! ## Normal paths -/

namespace Location

variable {l : Location}

/-- The segments of the path to a location are not empty, and there are no slashes in them. -/
theorem Proper.forall_mem_stack (hl : l.Proper) :
    ∀ s ∈ l.stack.reverse, s ≠ [] ∧ '/' ∉ s := by
  intro s hs
  rcases List.mem_append.mp (List.mem_reverse.mp hs) with hs | hs
  · exact ⟨(hl.names s hs).1.1, (hl.names s hs).2⟩
  · rw [List.eq_of_mem_replicate hs]
    decide

theorem Proper.ne_nil_of_mem_stack (hl : l.Proper) : ∀ s ∈ l.stack.reverse, s ≠ [] :=
  fun s hs ↦ (hl.forall_mem_stack s hs).1

theorem Proper.slash_notMem_stack (hl : l.Proper) : ∀ s ∈ l.stack.reverse, '/' ∉ s :=
  fun s hs ↦ (hl.forall_mem_stack s hs).2

theorem path_of_absolute (h : l.isAbsolute = true) :
    l.path = '/' :: ['/'].intercalate l.stack.reverse :=
  if_pos h

theorem path_of_relative (h : l.isAbsolute = false) :
    l.path = ['/'].intercalate l.stack.reverse :=
  if_neg (Bool.eq_false_iff.mp h)

/-- The path to a location is normal, unless there is no segment in it. -/
theorem Proper.isNormal_path (hl : l.Proper) (hne : l.stack ≠ []) : IsNormal l.path := by
  have hnames : ∀ s ∈ l.names.reverse, IsName s :=
    fun s hs ↦ (hl.names s (List.mem_reverse.mp hs)).1
  have hsegments : segments (['/'].intercalate l.stack.reverse) = l.stack.reverse :=
    List.splitOn_intercalate '/' hl.slash_notMem_stack (mt List.reverse_eq_nil_iff.mp hne)
  cases hroot : l.isAbsolute with
  | true =>
      rw [path_of_absolute hroot, isNormal_slash, hsegments, reverse_stack, hl.root hroot]
      exact hnames
  | false =>
      have hhead := head?_intercalate hl.slash_notMem_stack hl.ne_nil_of_mem_stack
      rw [path_of_relative hroot, isNormal_of_head? hhead, hsegments, reverse_stack,
        List.dropWhile_append_of_pos (by simp)]
      exact fun s hs ↦ hnames s ((List.dropWhile_suffix _).subset hs)

theorem foldl_enter_ups (n : Nat) :
    (List.replicate n ['.', '.']).foldl enter (start false) = ⟨false, n, []⟩ := by
  induction n with
  | zero => rfl
  | succ n ih =>
      rw [List.replicate_succ', List.foldl_append, ih]
      rfl

theorem foldl_enter_names (l : Location) {names : List (List Char)} (h : ∀ s ∈ names, IsName s) :
    names.foldl enter l = { l with names := names.reverse ++ l.names } := by
  induction names generalizing l with
  | nil => rfl
  | cons s names ih =>
      rw [List.forall_mem_cons] at h
      obtain ⟨⟨hnil, hpoint, hup⟩, hnames⟩ := h
      rw [List.foldl_cons, l.enter_name hnil hpoint hup, ih _ hnames]
      simp

end Location

section Normal

variable {path directory specifier : List Char}

/-- The segments of a normal path are those of its location, but for the empty one before a slash at
its start. -/
theorem segments_of_isNormal (h : IsNormal path) :
    segments path = (if (Location.ofPath path).isAbsolute then [[]] else []) ++
      (Location.ofPath path).stack.reverse := by
  by_cases hhead : path.head? = some '/'
  · obtain ⟨path, rfl⟩ : ∃ rest, path = '/' :: rest := List.head?_eq_some_iff.mp hhead
    rw [isNormal_slash] at h
    rw [Location.ofPath_slash, Location.foldl_enter_names _ h, segments_cons, if_pos rfl]
    simp [Location.stack, Location.start]
  · rw [isNormal_of_head? hhead] at h
    have hups : (segments path).takeWhile (· = ['.', '.']) =
        List.replicate ((segments path).takeWhile (· = ['.', '.'])).length ['.', '.'] :=
      List.eq_replicate_of_mem fun s hs ↦ by simpa using List.mem_takeWhile_imp hs
    have hsplit := List.takeWhile_append_dropWhile (p := (· = ['.', '.'])) (l := segments path)
    rw [hups] at hsplit
    rw [Location.ofPath_of_head? hhead, ← hsplit, List.foldl_append, Location.foldl_enter_ups,
      Location.foldl_enter_names _ h, Location.reverse_stack]
    simp

/-- A normal path is the normal path to its location. -/
theorem path_ofPath (h : IsNormal path) : (Location.ofPath path).path = path := by
  have hsegments := segments_of_isNormal h
  have hjoined : ['/'].intercalate (segments path) = path := List.intercalate_splitOn '/'
  rw [hsegments] at hjoined
  cases hroot : (Location.ofPath path).isAbsolute with
  | false =>
      rw [hroot] at hjoined
      rw [Location.path_of_relative hroot]
      exact hjoined
  | true =>
      rw [hroot, if_pos rfl] at hjoined
      rw [Location.path_of_absolute hroot]
      have hne : (Location.ofPath path).stack.reverse ≠ [] := by
        intro hnil
        rw [hnil] at hjoined
        have hhead := (Location.isAbsolute_ofPath path).mp hroot
        rw [← hjoined] at hhead
        cases hhead
      rw [List.singleton_append, List.intercalate_cons_of_ne_nil hne] at hjoined
      exact hjoined

/-- There is one normal path to a location. -/
theorem IsNormal.eq_of_ofPath_eq (h : IsNormal path) (h' : IsNormal directory)
    (heq : Location.ofPath path = Location.ofPath directory) : path = directory := by
  rw [← path_ofPath h, heq, path_ofPath h']

theorem filter_segments_of_isNormal (h : IsNormal path) :
    (segments path).filter (· ≠ []) = (Location.ofPath path).stack.reverse := by
  have hstack := (Location.proper_ofPath path).ne_nil_of_mem_stack
  rw [segments_of_isNormal h, List.filter_append,
    List.filter_eq_self.mpr fun s hs ↦ decide_eq_true (hstack s hs)]
  split <;> rfl

/-- From a normal directory, or from none, folding leads to the normal path of a location. -/
theorem joinPath_eq_path (h : directory = [] ∨ IsNormal directory) (path : List Char) :
    joinPath directory path =
      ((segments path).foldl Location.enter (Location.ofPath directory)).path := by
  have hstart : ((segments directory).filter (· ≠ [])).reverse =
      (Location.ofPath directory).stack := by
    rcases h with rfl | h
    · rfl
    · rw [filter_segments_of_isNormal h, List.reverse_reverse]
  have hroot : (directory.head? == some '/') = (Location.ofPath directory).isAbsolute := by
    rw [Location.ofPath, Location.isAbsolute_foldl]
    rfl
  have hproper := Location.proper_ofPath directory
  rw [joinPath, hstart, hroot, hproper.foldl_pushSegment_stack fun _ ↦ slash_notMem_segments,
    Location.path, Location.isAbsolute_foldl]

/-- The directory of a normal path is normal, if there is one. -/
theorem isNormal_parentDirectory (h : IsNormal path) :
    parentDirectory path = [] ∨ IsNormal (parentDirectory path) := by
  rcases parentDirectory_cases path with ⟨-, hnil, -⟩ | ⟨hpath, -⟩
  · exact .inl hnil
  · generalize parentDirectory path = directory at hpath ⊢
    generalize fileName path = name at hpath
    subst hpath
    by_cases hhead : directory.head? = some '/'
    · obtain ⟨directory, rfl⟩ := List.head?_eq_some_iff.mp hhead
      rw [List.cons_append, isNormal_slash, segments_append, List.forall_mem_append] at h
      exact .inr (isNormal_slash.mpr h.1)
    · cases directory with
      | nil => exact .inl rfl
      | cons c directory =>
          have hhead' : (c :: directory ++ '/' :: name).head? ≠ some '/' := hhead
          rw [isNormal_of_head? hhead', segments_append, List.dropWhile_append] at h
          rw [isNormal_of_head? hhead]
          refine .inr fun s hs ↦ ?_
          rw [if_neg (by simpa using List.ne_nil_of_mem hs), List.forall_mem_append] at h
          exact h.1 s hs

/-- A relative import from a normal path leads to the normal path of a proper location. -/
theorem exists_importBase_eq_path (h : IsNormal path) (hrelative : isRelative specifier = true) :
    ∃ l : Location, l.Proper ∧ importBase path specifier = l.path :=
  ⟨_, (Location.proper_ofPath _).foldl fun _ ↦ slash_notMem_segments,
    (if_pos hrelative).trans (joinPath_eq_path (isNormal_parentDirectory h) specifier)⟩

/-- Where specifiers fold to the same segments, they lead from one directory to the same path. -/
theorem joinPath_congr {specifier' : List Char} (directory : List Char)
    (hhead : specifier.head? ≠ some '/') (hhead' : specifier'.head? ≠ some '/')
    (h : Location.ofPath specifier = Location.ofPath specifier') :
    joinPath directory specifier = joinPath directory specifier' := by
  rw [Location.ofPath_of_head? hhead, Location.ofPath_of_head? hhead'] at h
  rw [joinPath, joinPath, ← Location.foldl_stack_foldl _ _ fun _ ↦ slash_notMem_segments, h,
    Location.foldl_stack_foldl _ _ fun _ ↦ slash_notMem_segments]

end Normal

/-! ## Extensions -/

namespace Location

variable {l : Location}

/-- The path to a location is what stands before its last segment, and that segment. -/
theorem path_of_stack_eq_cons {last : List Char} {more : List (List Char)}
    (hstack : l.stack = last :: more) :
    l.path =
      ((if l.isAbsolute then [[]] else []) ++ more.reverse).flatMap (· ++ ['/']) ++ last := by
  rw [path, hstack, List.reverse_cons, intercalate_concat]
  split <;> rfl

/-- An extension goes to the last segment. -/
theorem path_append {l' : Location} {last ext : List Char} {more : List (List Char)}
    (hroot : l'.isAbsolute = l.isAbsolute) (hstack : l.stack = last :: more)
    (hstack' : l'.stack = (last ++ ext) :: more) : l.path ++ ext = l'.path := by
  rw [path_of_stack_eq_cons hstack, path_of_stack_eq_cons hstack', hroot, List.append_assoc]

theorem Proper.fileName_path (hl : l.Proper) {last : List Char} {more : List (List Char)}
    (hstack : l.stack = last :: more) : fileName l.path = last := by
  have hslash := hl.slash_notMem_stack last (by simp [hstack])
  rw [path_of_stack_eq_cons hstack]
  exact fileName_append (getLast?_flatMap_slash _) hslash

/-- What has no extension leads to a name, or nowhere. -/
theorem Proper.ups_eq_zero (hl : l.Proper) (hextension : hasExtension l.path = false)
    (hnames : l.names = []) : l.ups = 0 := by
  by_contra hups
  obtain ⟨ups, hups⟩ := Nat.exists_eq_succ_of_ne_zero hups
  have hstack : l.stack = ['.', '.'] :: List.replicate ups ['.', '.'] := by
    rw [stack, hnames, hups]
    rfl
  rw [hasExtension, hl.fileName_path hstack] at hextension
  cases hextension

/-- A path that has an extension, or gets one, is normal. -/
theorem Proper.isNormal_append (hl : l.Proper) (hextension : hasExtension l.path = false)
    {ext : List Char} (hslash : '/' ∉ ext) (hlength : 3 ≤ ext.length) :
    IsNormal (l.path ++ ext) := by
  cases hnames : l.names with
  | nil =>
      have hups := hl.ups_eq_zero hextension hnames
      have hname : IsName ext := by
        refine ⟨?_, ?_, ?_⟩ <;> rintro rfl <;> simp at hlength
      have hproper : ({ l with names := [ext] } : Location).Proper :=
        ⟨List.forall_mem_singleton.mpr ⟨hname, hslash⟩, hl.root⟩
      have hpath : l.path ++ ext = ({ l with names := [ext] } : Location).path := by
        have hempty : l.stack = [] := by
          rw [stack, hnames, hups]
          rfl
        have hstack : ({ l with names := [ext] } : Location).stack = [ext] := by
          rw [stack, hups]
          rfl
        rw [path_of_stack_eq_cons hstack, path, hempty]
        split <;> rfl
      rw [hpath]
      exact hproper.isNormal_path (by simp [stack])
  | cons name names =>
      have hall := hl.names
      rw [hnames, List.forall_mem_cons] at hall
      obtain ⟨⟨hname, hname'⟩, hall⟩ := hall
      have hproper : ({ l with names := (name ++ ext) :: names } : Location).Proper := by
        refine ⟨List.forall_mem_cons.mpr ⟨⟨hname.append (by omega), ?_⟩, hall⟩, hl.root⟩
        rw [List.mem_append, not_or]
        exact ⟨hname', hslash⟩
      have hstack : l.stack = name :: (names ++ List.replicate l.ups ['.', '.']) := by
        rw [stack, hnames]
        rfl
      have hpath : l.path ++ ext =
          ({ l with names := (name ++ ext) :: names } : Location).path :=
        path_append rfl hstack rfl
      rw [hpath]
      exact hproper.isNormal_path (by simp [stack])

/-- A path with an extension has a segment. -/
theorem stack_ne_nil (hextension : hasExtension l.path = true) : l.stack ≠ [] := by
  intro hempty
  rw [path, hempty] at hextension
  split at hextension <;> cases hextension

end Location

section Imports

variable {importer specifier : List Char}

/-- From a normal path, a relative import leads to normal paths: one with an extension as it is, and
another one with any that it gets. -/
theorem isNormal_importBase (h : IsNormal importer) (hrelative : isRelative specifier = true) :
    (hasExtension (importBase importer specifier) = true →
      IsNormal (importBase importer specifier)) ∧
    (hasExtension (importBase importer specifier) = false → ∀ ext : List Char, '/' ∉ ext →
      3 ≤ ext.length → IsNormal (importBase importer specifier ++ ext)) := by
  obtain ⟨l, hl, hbase⟩ := exists_importBase_eq_path h hrelative
  rw [hbase]
  exact ⟨fun hextension ↦ hl.isNormal_path (Location.stack_ne_nil hextension),
    fun hextension ext hslash hlength ↦ hl.isNormal_append hextension hslash hlength⟩

/-- Relative specifiers that fold to the same segments lead from the files of a directory to the same
place. -/
theorem importBase_congr {importer' specifier' : List Char}
    (hrelative : isRelative specifier = true) (hrelative' : isRelative specifier' = true)
    (hdirectory : parentDirectory importer = parentDirectory importer')
    (h : Location.ofPath specifier = Location.ofPath specifier') :
    importBase importer specifier = importBase importer' specifier' := by
  rw [importBase, importBase, if_pos hrelative, if_pos hrelative', hdirectory]
  exact joinPath_congr _ (head?_of_isRelative hrelative) (head?_of_isRelative hrelative') h

end Imports

end PipedCompiler.Language
