import PipedCompiler.Proofs.Diagnostic.Pattern

/-!
# Reading a line again

The diagnostic that a line shows has a text of its own, and that text is a line as well.  The two
show the same diagnostic if the position in the first is one that can be written: digits that stand
for no number are dropped, one by one, and without its position a line may be cut at a shorter file
name.
-/

namespace PipedCompiler.Diagnostic

open PipedCompiler.Text

/-! ## Positions have no blanks -/

theorem isBlank_of_isPositionDigit {c : Char} (h : isPositionDigit c = true) :
    isBlank c = false := by
  rw [isPositionDigit, Bool.and_eq_true, isDecimalDigit] at h
  rw [← Bool.not_eq_true]
  intro hblank
  obtain ⟨blank, hmem, hlow, hhigh⟩ := CodeRanges.contains_iff.mp hblank
  split at h
  · next hascii =>
    have hdigits : ∀ range ∈ blankRanges, range.2 < '0'.toNat ∨ '9'.toNat < range.1 := by decide
    have hdigit := Char.isDigit_iff_toNat.mp h.1
    have hrange := hdigits blank hmem
    omega
  · obtain ⟨digits, hmem', hlow', hhigh'⟩ := CodeRanges.contains_iff.mp h.1
    have hdisjoint : ∀ range ∈ blankRanges, ∀ range' ∈ digitRanges,
        range.2 < range'.1 ∨ range'.2 < range.1 := by decide +kernel
    have hrange := hdisjoint blank hmem digits hmem'
    omega

theorem IsPosition.not_blank {p : List Char} (h : IsPosition p) : ∀ c ∈ p, isBlank c = false := by
  obtain ⟨line, column, hline, hcolumn, rfl⟩ := h
  have hmarks : isBlank '(' = false ∧ isBlank ',' = false ∧ isBlank ')' = false := by decide
  intro c hc
  simp only [positioned, List.mem_cons, List.mem_append, List.not_mem_nil, or_false] at hc
  rcases hc with rfl | hc | rfl | hc | rfl
  · exact hmarks.1
  · exact isBlank_of_isPositionDigit (hline.digit c hc)
  · exact hmarks.2.1
  · exact isBlank_of_isPositionDigit (hcolumn.digit c hc)
  · exact hmarks.2.2

theorem IsPosition.ne_nil {p : List Char} (h : IsPosition p) : p ≠ [] := by
  obtain ⟨line, column, -, -, rfl⟩ := h
  exact List.cons_ne_nil _ _

theorem Locates.eq_nil_or {p : List Char} {line column : Option UInt32}
    (h : Locates p line column) :
    p = [] ∨ ∃ l c, IsCount l ∧ IsCount c ∧ p = positioned l c ∧
      number? l = line ∧ number? c = column := by
  cases h with
  | nothing => exact .inl rfl
  | position hl hc => exact .inr ⟨_, _, hl, hc, rfl, rfl, rfl⟩

theorem Locates.eq_none {line column : Option UInt32} (h : Locates [] line column) :
    line = none ∧ column = none := by
  cases h
  exact ⟨rfl, rfl⟩

theorem Locates.not_blank {p : List Char} {line column : Option UInt32}
    (h : Locates p line column) : ∀ c ∈ p, isBlank c = false := by
  cases h with
  | nothing => nofun
  | position hline hcolumn => exact IsPosition.not_blank ⟨_, _, hline, hcolumn, rfl⟩

/-! ## Shortest file names -/

/-- What starts a matter in front of a mark starts one as well in front of anything without blanks
that a colon and a blank follow: the code goes on as far as there. -/
theorem IsMatter.replace {t rest y m : List Char} {c : Char} (hc : c ∈ ['(', ':'])
    (h : IsMatter (t ++ c :: rest)) (hy : y ≠ []) (hblank : ∀ a ∈ y, isBlank a = false) :
    IsMatter (t ++ (y ++ ':' :: ' ' :: m)) := by
  obtain ⟨hlower, hmark, -, -⟩ := mark_cases hc
  obtain ⟨severity, u, code, message, hcode, rfl, heq⟩ := h.eq_append hlower hmark
  by_cases hu : ∀ a ∈ u, isBlank a = false
  · refine ⟨severity, u ++ y, m, ⟨by simp [hy], fun a ha ↦ ?_⟩, by simp [matter]⟩
    exact (List.mem_append.mp ha).elim (hu a) (hblank a)
  · -- There is a blank in front of the mark, so the code has come to its end before.
    rcases before_or_behind hmark heq with ⟨t, rfl, rfl⟩ | ⟨more, rfl, -⟩
    · exact ⟨severity, code, t ++ (y ++ ':' :: ' ' :: m), hcode, by simp [matter]⟩
    · exact absurd (fun a ha ↦ hcode.not_blank a (List.mem_append_left _ ha)) hu

/-- Whether a name ends in a position, and more than that. -/
def EndsInPosition (name : List Char) : Prop :=
  ∃ before p, before ≠ [] ∧ IsPosition p ∧ name = before ++ p

namespace IsShortest

variable {name p rest m : List Char} {c : Char}

theorem of_append (h : IsShortest (name ++ p) rest) : IsShortest name (p ++ rest) := by
  rintro before s hbefore hs rfl
  rw [← List.append_assoc]
  exact h before (s ++ p) hbefore (by simp [hs]) (List.append_assoc before s p)

theorem not_endsInPosition (h : IsShortest name (':' :: ' ' :: m)) (hm : IsMatter m) :
    ¬ EndsInPosition name := by
  rintro ⟨before, p, hbefore, hp, rfl⟩
  exact h before p hbefore hp.ne_nil rfl ⟨p, m, .inr hp, hm, rfl⟩

/-- A name that is the shortest in front of something without blanks stays so in front of a mark. -/
theorem replace {y : List Char} (h : IsShortest name (y ++ ':' :: ' ' :: m)) (hy : y ≠ [])
    (hblank : ∀ a ∈ y, isBlank a = false) (hc : c ∈ ['(', ':'])
    (hposition : c = ':' → ¬ EndsInPosition name) : IsShortest name (c :: rest) := by
  rintro before s hbefore hs rfl hends
  rcases hends.eq_append hs hc with ⟨hcolon, hp⟩ | ⟨p, t, hp, rfl, hm⟩
  · exact hposition hcolon ⟨before, s, hbefore, hp, rfl⟩
  · refine h before _ hbefore hs rfl ⟨p, _, hp, hm.replace hc hy hblank (m := m), ?_⟩
    simp

end IsShortest

/-! ## Texts of diagnostics -/

/-- What stands behind the name of the file in a line that shows a diagnostic. -/
def behindFile (d : Diagnostic) (p : List Char) : List Char :=
  p ++ ':' :: ' ' :: matter d.severity d.code.toList d.message.toList

/-- Whether a diagnostic is shown by a line that has a name of a file and something behind it for
the position. -/
structure ShownInFile (d : Diagnostic) (name p : List Char) : Prop where
  name_ne_nil : name ≠ []
  file : d.file = some (String.ofList name)
  code : IsCode d.code.toList
  locates : Locates p d.line d.column
  shortest : IsShortest name (d.behindFile p)

theorem readInFile?_nil_eq_some_iff {cs : List Char} {d : Diagnostic} :
    readInFile? [] cs = some d ↔ ∃ name p, d.ShownInFile name p ∧ cs = name ++ d.behindFile p := by
  constructor
  · intro h
    obtain ⟨name, _, hname, rfl, hshort, hafter⟩ := readInFile?_eq_some_iff.mp h
    obtain ⟨hfile, hcode, p, hp, rfl⟩ := readAfterFile?_eq_some_iff.mp hafter
    exact ⟨name, p, ⟨hname, by simpa using hfile, hcode, hp, hshort⟩, rfl⟩
  · rintro ⟨name, p, h, rfl⟩
    refine readInFile?_eq_some_iff.mpr ⟨name, _, h.name_ne_nil, rfl, h.shortest, ?_⟩
    exact readAfterFile?_eq_some_iff.mpr ⟨by simpa using h.file, h.code, p, h.locates, rfl⟩

/-- The position in the text of a diagnostic. -/
def writtenPosition (d : Diagnostic) : List Char :=
  match d.line, d.column with
  | some line, some column => positioned (count line).toList (count column).toList
  | _, _ => []

theorem not_blank_writtenPosition (d : Diagnostic) :
    ∀ c ∈ d.writtenPosition, isBlank c = false := by
  rw [writtenPosition]
  split
  · exact IsPosition.not_blank ⟨_, _, isCount_count _, isCount_count _, rfl⟩
  · nofun

/-- Whether the place of a diagnostic is the one that its text gives: line and column are both known
or both unknown, and without them the file has no name that ends in a position. -/
structure KeepsPlace (d : Diagnostic) : Prop where
  paired : d.line.isSome = d.column.isSome
  no_position : d.line = none → ∀ file ∈ d.file, ¬ EndsInPosition file.toList

theorem keepsPlace_of_isSome {d : Diagnostic} (hline : d.line.isSome) (hcolumn : d.column.isSome) :
    d.KeepsPlace where
  paired := hline.trans hcolumn.symm
  no_position hnone := by
    rw [hnone] at hline
    cases hline

/-- Whether diagnostics differ in nothing but their places. -/
structure SameMatter (d d' : Diagnostic) : Prop where
  severity : d.severity = d'.severity
  code : d.code = d'.code
  message : d.message = d'.message

namespace ShownInFile

variable {d : Diagnostic} {name before p : List Char}

theorem isMatter (h : d.ShownInFile name p) :
    IsMatter (matter d.severity d.code.toList d.message.toList) :=
  ⟨_, _, _, h.code, rfl⟩

theorem toList_text (h : d.ShownInFile name p) :
    d.text.toList = name ++ d.behindFile d.writtenPosition := by
  obtain ⟨file, line, column, severity, code, message⟩ := d
  obtain rfl : file = some (String.ofList name) := h.file
  cases line <;> cases column <;>
    simp [Diagnostic.toList_text, placeText, behindFile, writtenPosition, positioned]

theorem keepsPlace_iff (h : d.ShownInFile name p) :
    d.KeepsPlace ↔
      d.line.isSome = d.column.isSome ∧ (d.line = none → ¬ EndsInPosition name) := by
  constructor
  · exact fun hkeeps ↦ ⟨hkeeps.paired, fun hline ↦ by simpa using hkeeps.no_position hline _ h.file⟩
  · rintro ⟨hpaired, hno⟩
    refine ⟨hpaired, fun hline file hfile ↦ ?_⟩
    obtain rfl : String.ofList name = file := Option.some.inj (h.file.symm.trans hfile)
    simpa using hno hline

theorem keepsPlace_of_nil (h : d.ShownInFile name []) : d.KeepsPlace := by
  obtain ⟨hline, hcolumn⟩ := h.locates.eq_none
  exact h.keepsPlace_iff.mpr
    ⟨by rw [hline, hcolumn], fun _ ↦ h.shortest.not_endsInPosition h.isMatter⟩

/-- A position that is known is read as well where it is written anew. -/
theorem rewritten (h : d.ShownInFile name p) (hp : p ≠ []) {line column : UInt32}
    (hline : d.line = some line) (hcolumn : d.column = some column) :
    d.ShownInFile name (positioned (count line).toList (count column).toList) where
  name_ne_nil := h.name_ne_nil
  file := h.file
  code := h.code
  locates := by
    have hlocates := Locates.position (isCount_count line) (isCount_count column)
    rwa [number?_count, number?_count, ← hline, ← hcolumn] at hlocates
  shortest := h.shortest.replace hp h.locates.not_blank (by simp) nofun

/-- Without the position, the file is read as long as its name ends in none. -/
theorem unplaced (h : d.ShownInFile name p) (hp : p ≠ []) (hends : ¬ EndsInPosition name) :
    ShownInFile { d with line := none, column := none } name [] where
  name_ne_nil := h.name_ne_nil
  file := h.file
  code := h.code
  locates := .nothing
  shortest := h.shortest.replace hp h.locates.not_blank (by simp) fun _ ↦ hends

/-- Without the position, the one that the name ends in is read. -/
theorem misplaced {line column : List Char} (hbefore : before ≠ []) (hline : IsCount line)
    (hcolumn : IsCount column) (h : d.ShownInFile (before ++ positioned line column) p) :
    ShownInFile
      { d with file := some (String.ofList before), line := number? line, column := number? column }
      before (positioned line column) where
  name_ne_nil := hbefore
  file := rfl
  code := h.code
  locates := .position hline hcolumn
  shortest := by
    have hposition : IsPosition (positioned line column) := ⟨line, column, hline, hcolumn, rfl⟩
    have hboth : IsShortest before ((positioned line column ++ p) ++
        ':' :: ' ' :: matter d.severity d.code.toList d.message.toList) := by
      rw [List.append_assoc]
      exact h.shortest.of_append
    refine hboth.replace (by simp [hposition.ne_nil]) (fun c hc ↦ ?_) (by simp) nofun
    exact (List.mem_append.mp hc).elim (hposition.not_blank c) (h.locates.not_blank c)

/-- A diagnostic whose text keeps its place is read again. -/
theorem readInFile?_text (h : d.ShownInFile name p) (hkeeps : d.KeepsPlace) :
    readInFile? [] d.text.toList = some d := by
  refine readInFile?_nil_eq_some_iff.mpr ⟨name, d.writtenPosition, ?_, h.toList_text⟩
  obtain ⟨hpaired, hno⟩ := h.keepsPlace_iff.mp hkeeps
  obtain ⟨file, line, column, severity, code, message⟩ := d
  cases line with
  | some line =>
      obtain ⟨column, rfl⟩ := Option.isSome_iff_exists.mp hpaired.symm
      rcases eq_or_ne p [] with rfl | hp
      · cases h.locates.eq_none.1
      · exact h.rewritten hp rfl rfl
  | none =>
      obtain rfl : column = none := by simpa using hpaired.symm
      rcases eq_or_ne p [] with rfl | hp
      · exact h
      · exact h.unplaced hp (hno rfl)

/-- A diagnostic whose text does not keep its place is read as another one, at the same place
without the position or in a file with a shorter name. -/
theorem exists_readInFile?_text (h : d.ShownInFile name p) (hkeeps : ¬ d.KeepsPlace) :
    ∃ d' ≠ d, readInFile? [] d.text.toList = some d' ∧ SameMatter d' d := by
  have hp : p ≠ [] := by
    rintro rfl
    exact hkeeps h.keepsPlace_of_nil
  have hwritten : d.writtenPosition = [] := by
    rw [writtenPosition]
    split
    · next hline hcolumn =>
      exact absurd (keepsPlace_of_isSome (by rw [hline]; rfl) (by rw [hcolumn]; rfl)) hkeeps
    · rfl
  rw [h.toList_text, hwritten]
  by_cases hends : EndsInPosition name
  · obtain ⟨before, _, hbefore, ⟨line, column, hline, hcolumn, rfl⟩, rfl⟩ := hends
    refine ⟨_, fun heq ↦ ?_, readInFile?_nil_eq_some_iff.mpr
      ⟨before, _, h.misplaced hbefore hline hcolumn, List.append_assoc _ _ _⟩, ⟨rfl, rfl, rfl⟩⟩
    have hfile : some (String.ofList before) = d.file := congrArg Diagnostic.file heq
    have hlength := congrArg (Option.map String.length) (hfile.trans h.file)
    simp [positioned] at hlength
  · refine ⟨_, fun heq ↦ ?_,
      readInFile?_nil_eq_some_iff.mpr ⟨name, [], h.unplaced hp hends, rfl⟩, ⟨rfl, rfl, rfl⟩⟩
    have hline : none = d.line := congrArg Diagnostic.line heq
    have hcolumn : none = d.column := congrArg Diagnostic.column heq
    exact hkeeps (h.keepsPlace_iff.mpr ⟨by rw [← hline, ← hcolumn], fun _ ↦ hends⟩)

end ShownInFile

/-! ## Lines -/

/-- What stands in a line that shows a diagnostic. -/
theorem ofLine?_cases {line : String} {d : Diagnostic} (h : ofLine? line = some d) :
    '\n' ∉ trimRight line.toList ∧
      ((∃ name p, d.ShownInFile name p ∧ trimRight line.toList = name ++ d.behindFile p) ∨
        d.file = none ∧ d.KeepsPlace ∧ trimRight line.toList = d.text.toList) := by
  rw [ofLine?, readTrimmed?] at h
  split at h
  · cases h
  · next hline =>
    refine ⟨by simpa using hline, ?_⟩
    rw [Option.orElse_eq_orElse, Option.orElse_eq_or, Option.or_eq_some_iff] at h
    rcases h with h | ⟨-, h⟩
    · exact .inl (readInFile?_nil_eq_some_iff.mp h)
    · obtain ⟨hcode, hmatter, hplain⟩ := readMatter?_eq_some_iff.mp h
      rw [hplain]
      exact .inr ⟨rfl, ⟨rfl, fun _ file hfile ↦ by cases hfile⟩, by
        rw [hmatter, toList_text]; rfl⟩

theorem ofLine?_of_toList {line text : String} (h : text.toList = trimRight line.toList) :
    ofLine? text = ofLine? line := by
  rw [ofLine?, ofLine?, h, trimRight_trimRight]

namespace ShownInFile

variable {d : Diagnostic} {name p : List Char} {line : String}

/-- The text of a diagnostic that a line shows is a line without white space at its end. -/
theorem ofLine?_text (h : d.ShownInFile name p) (hline : '\n' ∉ trimRight line.toList)
    (hshown : trimRight line.toList = name ++ d.behindFile p) :
    ofLine? d.text = (readInFile? [] d.text.toList <|> readMatter? d.text.toList) := by
  refine ofLine?_of_endsSolid ?_ ?_
  · have hwritten : '\n' ∉ d.writtenPosition := fun hmem ↦ by
      cases d.not_blank_writtenPosition _ hmem
    simp only [hshown, behindFile, List.mem_append, not_or] at hline
    simp only [h.toList_text, behindFile, List.mem_append, not_or]
    exact ⟨hline.1, hwritten, hline.2.2⟩
  · have hsolid : EndsSolid (trimRight line.toList) := endsSolid_trimRight (by
      rw [hshown]
      exact List.append_ne_nil_of_left_ne_nil h.name_ne_nil _)
    rw [hshown, behindFile, ← List.append_assoc] at hsolid
    rw [h.toList_text, behindFile, ← List.append_assoc]
    exact (hsolid.of_append (List.cons_ne_nil _ _)).append _

/-- A place is kept if its position, where it has one, has numbers for its digits. -/
theorem keepsPlace (h : d.ShownInFile name p)
    (hnumbers : ∀ l c, IsCount l → IsCount c → p = positioned l c →
      (number? l).isSome ∧ (number? c).isSome) : d.KeepsPlace := by
  rcases h.locates.eq_nil_or with rfl | ⟨l, c, hl, hc, hp, hline, hcolumn⟩
  · exact h.keepsPlace_of_nil
  · obtain ⟨hl', hc'⟩ := hnumbers l c hl hc hp
    exact keepsPlace_of_isSome (hline ▸ hl') (hcolumn ▸ hc')

end ShownInFile

section Stability

variable {line : String} {d : Diagnostic}

theorem ofLine?_text_of_keepsPlace (h : ofLine? line = some d) (hkeeps : d.KeepsPlace) :
    ofLine? d.text = some d := by
  obtain ⟨hline, ⟨name, p, hd, hshown⟩ | ⟨-, -, hshown⟩⟩ := ofLine?_cases h
  · rw [hd.ofLine?_text hline hshown, hd.readInFile?_text hkeeps]
    rfl
  · rw [ofLine?_of_toList hshown.symm, h]

theorem exists_ofLine?_text (h : ofLine? line = some d) (hkeeps : ¬ d.KeepsPlace) :
    ∃ d' ≠ d, ofLine? d.text = some d' ∧ SameMatter d' d := by
  obtain ⟨hline, ⟨name, p, hd, hshown⟩ | ⟨-, hkeeps', -⟩⟩ := ofLine?_cases h
  · obtain ⟨d', hne, hread, hsame⟩ := hd.exists_readInFile?_text hkeeps
    refine ⟨d', hne, ?_, hsame⟩
    rw [hd.ofLine?_text hline hshown, hread]
    rfl
  · exact absurd hkeeps' hkeeps

theorem keepsPlace_of_ofLine? (h : ofLine? line = some d)
    (hnumbers : ∀ l c, IsCount l → IsCount c → positioned l c <:+: line.toList →
      (number? l).isSome ∧ (number? c).isSome) : d.KeepsPlace := by
  obtain ⟨-, ⟨name, p, hd, hshown⟩ | ⟨-, hkeeps, -⟩⟩ := ofLine?_cases h
  · refine hd.keepsPlace fun l c hl hc hp ↦ hnumbers l c hl hc ?_
    rw [← hp]
    have hprefix : trimRight line.toList <+: line.toList := List.rdropWhile_prefix isBlank _
    refine List.IsInfix.trans ?_ hprefix.isInfix
    rw [hshown, behindFile]
    exact ⟨name, _, List.append_assoc _ _ _⟩
  · exact hkeeps

/-- The text of a diagnostic that a line shows is a line that shows a diagnostic with the same
severity, code and message.  It shows the same one just if the text keeps its place, which it does
where no position in the line has digits that stand for no number; line and column are then both
known or both unknown. -/
theorem ofLine?_text_stable (h : ofLine? line = some d) :
    (∃ d', ofLine? d.text = some d' ∧ SameMatter d' d) ∧
    (ofLine? d.text = some d ↔ d.KeepsPlace) ∧
    ((∀ l c, IsCount l → IsCount c → positioned l c <:+: line.toList →
        (number? l).isSome ∧ (number? c).isSome) →
      ofLine? d.text = some d ∧ d.line.isSome = d.column.isSome) := by
  refine ⟨?_, ⟨fun hsame ↦ ?_, ofLine?_text_of_keepsPlace h⟩, fun hnumbers ↦ ?_⟩
  · by_cases hkeeps : d.KeepsPlace
    · exact ⟨d, ofLine?_text_of_keepsPlace h hkeeps, rfl, rfl, rfl⟩
    · obtain ⟨d', -, hd'⟩ := exists_ofLine?_text h hkeeps
      exact ⟨d', hd'⟩
  · by_contra hkeeps
    obtain ⟨d', hne, hd', -⟩ := exists_ofLine?_text h hkeeps
    exact hne (Option.some.inj (hd'.symm.trans hsame))
  · have hkeeps := keepsPlace_of_ofLine? h hnumbers
    exact ⟨ofLine?_text_of_keepsPlace h hkeeps, hkeeps.paired⟩

end Stability

/-- A line with a position in it, and white space at its end. -/
theorem ofLine?_text_stable_trailing :
    let line := "a.ts(1,23): error TS1: b: warning TS2: c \t"
    let d : Diagnostic := ⟨some "a.ts", some 1, some 23, .error, "TS1", "b: warning TS2: c"⟩
    ofLine? line = some d ∧
      (∀ l c, IsCount l → IsCount c → positioned l c <:+: line.toList →
        (number? l).isSome ∧ (number? c).isSome) ∧
      ofLine? d.text = some d ∧ d.line.isSome = d.column.isSome := by
  intro line d
  have hread : ofLine? line = some d := by decide +kernel
  have hnumbers : ∀ l c, IsCount l → IsCount c → positioned l c <:+: line.toList →
      (number? l).isSome ∧ (number? c).isSome := by
    rintro l c hl hc ⟨before, rest, heq⟩
    have hline : line.toList = "a.ts".toList ++ '(' :: (['1'] ++ ',' :: (['2', '3'] ++
        ')' :: ": error TS1: b: warning TS2: c \t".toList)) := by decide +kernel
    have hcut : line.toList = before ++ '(' :: (l ++ ',' :: (c ++ ')' :: rest)) := by
      rw [← heq]
      simp [positioned]
    obtain ⟨-, -, hbehind⟩ := (List.append_cons_inj_of_notMem (by decide) (by decide)).mp
      (hline.symm.trans hcut)
    have hone : IsCount ['1'] := ⟨List.cons_ne_nil _ _, by decide⟩
    have hmore : IsCount ['2', '3'] := ⟨List.cons_ne_nil _ _, by decide⟩
    obtain ⟨rfl, hcolumn⟩ := hone.append_cons_inj hl (by decide) hbehind
    obtain ⟨rfl, -⟩ := hmore.append_cons_inj hc (by decide) hcolumn
    decide +kernel
  exact ⟨hread, hnumbers, (ofLine?_text_stable hread).2.2 hnumbers⟩

/-- Digits that stand for no number are dropped, and so is the other part of the position in the
text. -/
theorem ofLine?_text_halfPlaced :
    let d : Diagnostic := ⟨some "a", some 1, none, .error, "T", "m"⟩
    ofLine? "a(1,4294967296): error T: m" = some d ∧ d.line.isSome ≠ d.column.isSome ∧
      ofLine? d.text = some ⟨some "a", none, none, .error, "T", "m"⟩ ∧ ofLine? d.text ≠ some d := by
  decide +kernel

end PipedCompiler.Diagnostic
