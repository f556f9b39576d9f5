import PipedCompiler.FileTree

/-!
# Reading back what has been written

Writing a file changes nothing but what is read at its place: all directories stay, so every path
leads to where it led before.  A directory that has been made stays made.  Names in one directory
lead to different places.
-/

namespace PipedCompiler.FileTree

open PipedCompiler.Text

variable {t t' : FileTree} {bs : Bytes}

/-! ## Writing -/

/-- Whether a file can be put at a place: what is there is not a directory. -/
def HasRoom (t : FileTree) (place : String) : Prop :=
  t.isDirectoryAt place = false

theorem HasRoom.ne_empty {place : String} (h : t.HasRoom place) : place ≠ "" := by
  rintro rfl
  cases h

theorem node?_put {place : String} (hplace : place ≠ "") (n : FileNode) (p : String) :
    (t.put place n).node? p = if place = p then some n else t.node? p := by
  rw [node?, node?, put, Table.get?_insert]
  by_cases hp : place = p
  · subst hp
    rw [if_neg hplace, if_pos rfl, if_pos rfl]
  · rw [if_neg hp, if_neg hp]

/-- Putting a file somewhere makes or removes no directory. -/
theorem isDirectoryAt_put {place : String} (h : t.HasRoom place) (bs : Bytes) (p : String) :
    (t.put place (.file bs)).isDirectoryAt p = t.isDirectoryAt p := by
  rw [isDirectoryAt, node?_put h.ne_empty]
  by_cases hp : place = p
  · subst hp
    rw [if_pos rfl]
    exact (show t.isDirectoryAt place = false from h).symm
  · rw [if_neg hp]
    rfl

theorem walk_put {place : String} (h : t.HasRoom place) (bs : Bytes) (start : String)
    (names : List String) : (t.put place (.file bs)).walk start names = t.walk start names := by
  induction names generalizing start with
  | nil => rfl
  | cons name names ih => rw [walk, walk, isDirectoryAt_put h, ih]

/-- Every path leads to where it led before. -/
theorem placeOf?_put {place : String} (h : t.HasRoom place) (bs : Bytes) (path : String) :
    (t.put place (.file bs)).placeOf? path = t.placeOf? path := by
  rw [placeOf?, placeOf?, walk_put h]
  rfl

/-- Nothing but what is read at the place has changed. -/
theorem read?_put {place : String} (h : t.HasRoom place) (bs : Bytes) (path : String) :
    (t.put place (.file bs)).read? path =
      if t.placeOf? path = some place then some bs else t.read? path := by
  rw [read?, read?, find?, find?, placeOf?_put h]
  cases t.placeOf? path with
  | none => rfl
  | some p =>
      rw [Option.bind_some, Option.bind_some, node?_put h.ne_empty]
      by_cases hp : place = p
      · subst hp
        rw [if_pos rfl, if_pos rfl]
      · rw [if_neg hp, if_neg fun heq ↦ hp (Option.some.inj heq).symm]

/-- Nothing can be read where there are only directories. -/
theorem read?_eq_none (h : ∀ entry ∈ t.nodes.entries, entry.2 = .directory) (path : String) :
    t.read? path = none := by
  have hnode : ∀ place bs, t.node? place ≠ some (.file bs) := by
    intro place bs hfile
    rw [node?] at hfile
    split at hfile
    · cases hfile
    · cases h _ (Table.mem_entries_of_get? hfile)
  rw [read?, find?]
  cases t.placeOf? path with
  | none => rfl
  | some place =>
      rw [Option.bind_some]
      split
      · next bs hfile => exact absurd hfile (hnode place bs)
      · rfl

/-- A file that has been written stands at the place that its path leads to. -/
theorem exists_of_write? {path : String} (h : t.write? path bs = some t') :
    ∃ place, t.placeOf? path = some place ∧ t.HasRoom place ∧ t' = t.put place (.file bs) := by
  rw [write?, Option.bind_eq_bind, Option.bind_eq_some_iff] at h
  obtain ⟨place, hplace, h⟩ := h
  split at h
  · cases h
  · next hroom =>
    refine ⟨place, hplace, ?_, (Option.some.inj h).symm⟩
    rw [Bool.not_eq_true, Bool.or_eq_false_iff] at hroom
    exact hroom.2

/-! ## Making directories -/

theorem isDirectoryAt_iff {place : String} :
    t.isDirectoryAt place = true ↔ t.node? place = some .directory := by
  rw [isDirectoryAt]
  split
  · next h => exact iff_of_true rfl h
  · next h => exact iff_of_false nofun fun hdirectory ↦ h hdirectory

/-- Whether the steps from a place lead from directory to directory. -/
def StepsDown (t : FileTree) (place : String) : List String → Prop
  | [] => True
  | name :: names =>
    t.isDirectoryAt (step place name) = true ∧ t.StepsDown (step place name) names

theorem StepsDown.mono (h : ∀ place, t.isDirectoryAt place = true → t'.isDirectoryAt place = true)
    {place : String} {names : List String} (hsteps : t.StepsDown place names) :
    t'.StepsDown place names := by
  induction names generalizing place with
  | nil => trivial
  | cons name names ih => exact ⟨h _ hsteps.1, ih hsteps.2⟩

theorem makeDirectories_of_stepsDown {place : String} {names : List String}
    (h : t.StepsDown place names) : t.makeDirectories place names = some t := by
  induction names generalizing place with
  | nil => rfl
  | cons name names ih =>
      rw [makeDirectories, isDirectoryAt_iff.mp h.1]
      exact ih h.2

/-- What has been made is there, and nothing that has been there is lost. -/
theorem stepsDown_of_makeDirectories {place : String} {names : List String}
    (h : t.makeDirectories place names = some t') :
    t'.StepsDown place names ∧ t'.current = t.current ∧
      ∀ p, t.isDirectoryAt p = true → t'.isDirectoryAt p = true := by
  induction names generalizing t place with
  | nil =>
      obtain rfl := Option.some.inj h
      exact ⟨trivial, rfl, fun _ hp ↦ hp⟩
  | cons name names ih =>
      rw [makeDirectories] at h
      split at h
      · next hnode =>
        obtain ⟨hsteps, hcurrent, hstay⟩ := ih h
        exact ⟨⟨hstay _ (isDirectoryAt_iff.mpr hnode), hsteps⟩, hcurrent, hstay⟩
      · cases h
      · next hnode =>
        obtain ⟨hsteps, hcurrent, hstay⟩ := ih h
        have hnext : step place name ≠ "" := by
          intro hroot
          rw [hroot] at hnode
          cases hnode
        have hput (p : String) (hp : t.isDirectoryAt p = true ∨ step place name = p) :
            (t.put (step place name) .directory).isDirectoryAt p = true := by
          rw [isDirectoryAt_iff, node?_put hnext]
          split
          · rfl
          · next hne => exact isDirectoryAt_iff.mp (hp.resolve_right hne)
        exact ⟨⟨hstay _ (hput _ (.inr rfl)), hsteps⟩, hcurrent,
          fun p hp ↦ hstay p (hput p (.inl hp))⟩

/-- Whether the directory of a path is there: nothing has to be made for it. -/
def Stands (t : FileTree) (path : String) : Prop :=
  t.createDirectories? path = some t

theorem stands_iff {path : String} :
    t.Stands path ↔ path = "" ∨
      isAcceptable path = true ∧ t.StepsDown (t.startOf path) (steps path) := by
  rw [Stands, createDirectories?]
  split
  · next hempty => exact iff_of_true rfl (.inl hempty)
  · next hempty =>
    rw [Option.ite_none_right_eq_some, or_iff_right hempty]
    exact and_congr_right fun _ ↦
      ⟨fun h ↦ (stepsDown_of_makeDirectories h).1, makeDirectories_of_stepsDown⟩

/-- A directory that has been made is there. -/
theorem stands_of_createDirectories? {path : String} (h : t.createDirectories? path = some t') :
    t'.Stands path := by
  rw [stands_iff]
  rw [createDirectories?] at h
  split at h
  · next hempty => exact .inl hempty
  · rw [Option.ite_none_right_eq_some] at h
    obtain ⟨hsteps, hcurrent, -⟩ := stepsDown_of_makeDirectories h.2
    rw [startOf, ← hcurrent] at hsteps
    exact .inr ⟨h.1, hsteps⟩

/-- Putting a file somewhere makes or removes no directory. -/
theorem Stands.put {path place : String} (h : t.Stands path) (hroom : t.HasRoom place)
    (bs : Bytes) : (t.put place (.file bs)).Stands path := by
  rw [stands_iff] at h ⊢
  refine h.imp_right (And.imp_right fun hsteps ↦ ?_)
  exact hsteps.mono fun p hp ↦ (isDirectoryAt_put hroom bs p).trans hp

/-! ## Names in a directory -/

theorem steps_append_cons (before name : List Char) :
    steps (String.ofList (before ++ '/' :: name)) =
      steps (String.ofList before) ++ steps (String.ofList name) := by
  simp only [steps, String.toList_ofList]
  rw [show (before ++ '/' :: name).splitOn '/' = before.splitOn '/' ++ name.splitOn '/' from
    List.splitOnP_append_cons before name (by simp), List.map_append]

theorem steps_of_notMem {name : String} (h : '/' ∉ name.toList) : steps name = [name] := by
  have hnames : name.toList.splitOn '/' = [name.toList] :=
    List.splitOnP_eq_singleton fun c hc ↦ by
      rw [beq_eq_false_iff_ne]
      rintro rfl
      exact h hc
  rw [steps, hnames]
  simp

/-- Whether a step with the name goes down. -/
def GoesDown (name : String) : Prop :=
  '/' ∉ name.toList ∧ name ≠ "" ∧ name ≠ "." ∧ name ≠ ".."

theorem GoesDown.step {name : String} (h : GoesDown name) (place : String) :
    step place name = child place name := by
  rw [FileTree.step, if_neg (by simp [h.2.1, h.2.2.1]), if_neg h.2.2.2]

/-- The paths of the names in a directory have the steps of the directory, and the name behind them:
a slash at the end of the directory makes no step of its own. -/
theorem exists_steps_join (directory : String) :
    ∃ before, (steps directory = before ∨ steps directory = before ++ [""]) ∧
      ∀ name, GoesDown name → steps (join directory name) = before ++ [name] ∧
        isAbsolute (join directory name) = isAbsolute directory := by
  have hrelative {name : String} (hname : GoesDown name) : isAbsolute name = false := by
    rw [isAbsolute, beq_eq_false_iff_ne]
    intro hhead
    exact hname.1 (List.mem_of_mem_head? hhead)
  by_cases hempty : directory = ""
  · subst hempty
    refine ⟨[], .inr (steps_of_notMem (by decide)), fun name hname ↦ ?_⟩
    rw [join, if_pos (by simp), steps_of_notMem hname.1]
    exact ⟨rfl, hrelative hname⟩
  -- Either way there is one slash between what is before it and the name.
  obtain ⟨before, hdirectory, hbefore⟩ : ∃ before : List Char,
      (directory = String.ofList before ∨ directory = String.ofList (before ++ ['/'])) ∧
      ∀ name, GoesDown name →
        join directory name = String.ofList (before ++ '/' :: name.toList) := by
    by_cases hlast : directory.toList.getLast? = some '/'
    · obtain ⟨before, hdirectory⟩ := List.getLast?_eq_some_iff.mp hlast
      refine ⟨before, .inr (by rw [← hdirectory, String.ofList_toList]), fun name hname ↦ ?_⟩
      rw [join, if_neg (by simp [hrelative hname, hempty]), if_pos hlast]
      apply String.toList_inj.mp
      simp [hdirectory]
    · refine ⟨directory.toList, .inl String.ofList_toList.symm, fun name hname ↦ ?_⟩
      rw [join, if_neg (by simp [hrelative hname, hempty]), if_neg hlast]
      apply String.toList_inj.mp
      simp
  refine ⟨steps (String.ofList before), ?_, fun name hname ↦ ?_⟩
  · refine hdirectory.imp (congrArg steps) fun hslash ↦ ?_
    rw [hslash, steps_append_cons]
    exact congrArg _ (steps_of_notMem (by decide))
  rw [hbefore name hname, steps_append_cons, String.ofList_toList, steps_of_notMem hname.1]
  refine ⟨rfl, ?_⟩
  rw [isAbsolute, isAbsolute, String.toList_ofList]
  rcases hdirectory with rfl | rfl
  · rw [String.toList_ofList]
    cases before with
    | nil => exact absurd rfl hempty
    | cons c before => rfl
  · rw [String.toList_ofList]
    cases before <;> rfl

theorem walk_append (t : FileTree) (start : String) (before names : List String) :
    t.walk start (before ++ names) = (t.walk start before).bind (t.walk · names) := by
  induction before generalizing start with
  | nil => rfl
  | cons name before ih =>
      rw [List.cons_append, walk, walk]
      split
      · exact ih _
      · rfl

/-- Whether a path leads to the directory at a place. -/
def LeadsInto (t : FileTree) (directory place : String) : Prop :=
  t.walk (t.startOf directory) (steps directory) = some place ∧ t.isDirectoryAt place = true

/-- A name in a directory leads to its own place there, if the path is taken at all. -/
theorem placeOf?_join_eq_some_iff {directory name place : String} (hname : GoesDown name) :
    t.placeOf? (join directory name) = some place ↔
      isAcceptable (join directory name) = true ∧
        ∃ p, t.LeadsInto directory p ∧ place = child p name := by
  obtain ⟨before, hdirectory, hjoin⟩ := exists_steps_join directory
  obtain ⟨hsteps, habsolute⟩ := hjoin name hname
  have hstart : t.startOf (join directory name) = t.startOf directory := by
    rw [startOf, startOf, habsolute]
  have hstep (p : String) : t.walk p [name] = some place ↔
      t.isDirectoryAt p = true ∧ place = child p name := by
    rw [walk, Option.ite_none_right_eq_some, walk, hname.step, Option.some.injEq,
      eq_comm (a := place)]
  -- A step without a name stays where it is, but only in a directory.
  have hinto (p : String) : t.LeadsInto directory p ↔
      t.walk (t.startOf directory) before = some p ∧ t.isDirectoryAt p = true := by
    rw [LeadsInto]
    rcases hdirectory with hsteps | hsteps
    · rw [hsteps]
    · rw [hsteps, walk_append, Option.bind_eq_some_iff]
      constructor
      · rintro ⟨⟨q, hq, hstay⟩, hp⟩
        rw [walk, Option.ite_none_right_eq_some] at hstay
        obtain rfl : q = p := Option.some.inj hstay.2
        exact ⟨hq, hp⟩
      · rintro ⟨hq, hp⟩
        refine ⟨⟨p, hq, ?_⟩, hp⟩
        rw [walk, if_pos hp]
        rfl
  rw [placeOf?, Option.ite_none_right_eq_some, hsteps, hstart, walk_append,
    Option.bind_eq_some_iff]
  simp only [hstep, hinto, and_assoc]

/-- Names in one directory have different paths. -/
theorem join_inj {directory name name' : String} (hname : GoesDown name) (hname' : GoesDown name')
    (h : join directory name = join directory name') : name = name' := by
  obtain ⟨before, -, hjoin⟩ := exists_steps_join directory
  have hsteps := (hjoin name hname).1
  rw [h, (hjoin name' hname').1, List.append_cancel_left_eq, List.singleton_inj] at hsteps
  exact hsteps.symm

/-- Names in one directory lead to different places. -/
theorem eq_of_placeOf?_join {directory name name' place : String} (hname : GoesDown name)
    (hname' : GoesDown name') (h : t.placeOf? (join directory name) = some place)
    (h' : t.placeOf? (join directory name') = some place) : name = name' := by
  obtain ⟨-, p, hp, hplace⟩ := (placeOf?_join_eq_some_iff hname).mp h
  obtain ⟨-, p', hp', hplace'⟩ := (placeOf?_join_eq_some_iff hname').mp h'
  obtain rfl := Option.some.inj (hp.1.symm.trans hp'.1)
  have heq : child p name = child p name' := hplace.symm.trans hplace'
  simpa [child] using heq

end PipedCompiler.FileTree
