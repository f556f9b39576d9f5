import Mathlib.Data.List.Basic
import PipedCompiler.Diagnostic.Reading
import PipedCompiler.Proofs.Text.Decimal
import PipedCompiler.Proofs.Text.Runs

/-!
# Lines that show diagnostics

A line that shows a diagnostic can be cut in more ways than one, so a diagnostic is got back from
its line only if nothing in it looks like the end of its place.  For a file it is enough that its
name announces no severity; for a diagnostic without a place, that its message does not hold all
that a line ends in.
-/

namespace PipedCompiler.Diagnostic

open PipedCompiler.Text

/-! ## Severity, code and message -/

theorem after?_eq_some_iff {expected cs rest : List Char} :
    after? expected cs = some rest ↔ cs = expected ++ rest := by
  induction expected generalizing cs with
  | nil => simp [after?]
  | cons e expected ih =>
      cases cs with
      | nil => simp [after?]
      | cons c cs =>
          rw [after?, List.cons_append, List.cons.injEq]
          split
          · next hc => rw [ih, and_iff_right hc.symm]
          · next hc => exact iff_of_false nofun fun h ↦ hc h.1.symm

/-- Whether characters can be a code: there are some, and none of them is white space. -/
structure IsCode (cs : List Char) : Prop where
  ne_nil : cs ≠ []
  not_blank : ∀ c ∈ cs, isBlank c = false

instance : DecidablePred IsCode := fun cs ↦
  decidable_of_iff (cs ≠ [] ∧ ∀ c ∈ cs, isBlank c = false)
    ⟨fun h ↦ ⟨h.1, h.2⟩, fun h ↦ ⟨h.ne_nil, h.not_blank⟩⟩

/-- Severity, code and message as they are written. -/
def matter (severity : Severity) (code message : List Char) : List Char :=
  severity.name.toList ++ ' ' :: (code ++ ':' :: ' ' :: message)

/-- Whether severity, code and message can be read. -/
def IsMatter (cs : List Char) : Prop :=
  ∃ severity code message, IsCode code ∧ cs = matter severity code message

theorem ofName?_name (severity : Severity) : Severity.ofName? severity.name = some severity := by
  cases severity <;> decide

/-- The name of a severity is made of small letters. -/
theorem notMem_name {c : Char} (hc : c.isLower = false) (severity : Severity) :
    c ∉ severity.name.toList := by
  intro h
  have hlower : ∀ a ∈ severity.name.toList, a.isLower = true := by cases severity <;> decide
  rw [hlower c h] at hc
  cases hc

theorem readMatter?_matter (severity : Severity) {code : List Char} (message : List Char)
    (hcode : IsCode code) :
    readMatter? (matter severity code message) =
      some (plain severity (String.ofList code) (String.ofList message)) := by
  have hname : ∀ c ∈ severity.name.toList, decide (c ≠ ' ') = true := by
    rintro c hc
    exact decide_eq_true fun h ↦ notMem_name (by decide) severity (h ▸ hc)
  have hafter : ∀ c ∈ (' ' :: (code ++ ':' :: ' ' :: message)).head?, decide (c ≠ ' ') = false := by
    rintro _ ⟨⟩
    rfl
  have hrun : ∀ c ∈ code ++ [':'], (!isBlank c) = true := by
    intro c hc
    rcases List.mem_append.mp hc with hc | hc
    · rw [hcode.not_blank c hc]
      rfl
    · rw [List.mem_singleton.mp hc]
      decide
  have hblank : ∀ c ∈ (' ' :: message).head?, (!isBlank c) = false := by
    rintro _ ⟨⟩
    decide
  have hcolon : code ++ ':' :: ' ' :: message = code ++ [':'] ++ ' ' :: message := by simp
  obtain ⟨c, reversed, hreversed⟩ : ∃ c reversed, code.reverse = c :: reversed :=
    List.exists_cons_of_ne_nil (by simpa using hcode.ne_nil)
  have hback : (c :: reversed).reverse = code := by rw [← hreversed, List.reverse_reverse]
  rw [readMatter?, matter, takeWhile_append_of_head hname hafter,
    dropWhile_append_of_head hname hafter, String.ofList_toList, ofName?_name]
  simp only [Option.bind_eq_bind, Option.bind_some, after?, ↓reduceIte]
  rw [hcolon, takeWhile_append_of_head hrun hblank, dropWhile_append_of_head hrun hblank]
  simp [after?, hreversed, hback]

theorem isMatter_of_readMatter? {cs : List Char} {d : Diagnostic} (h : readMatter? cs = some d) :
    IsMatter cs := by
  simp only [readMatter?, Option.bind_eq_bind, Option.bind_eq_some_iff] at h
  obtain ⟨severity, hseverity, afterName, hafterName, message, hmessage, h⟩ := h
  split at h
  · next c reversed hrun =>
    rw [after?_eq_some_iff] at hafterName hmessage
    have hname : severity.name.toList = cs.takeWhile (· ≠ ' ') := by
      have hfound : severity.name = String.ofList (cs.takeWhile (· ≠ ' ')) := by
        simpa using List.find?_some hseverity
      rw [hfound, String.toList_ofList]
    have hrun : afterName.takeWhile (!isBlank ·) = (c :: reversed).reverse ++ [':'] := by
      rw [← List.reverse_reverse (afterName.takeWhile _), hrun, List.reverse_cons]
    refine ⟨severity, (c :: reversed).reverse, message, ⟨by simp, ?_⟩, ?_⟩
    · intro a ha
      have hmem : a ∈ afterName.takeWhile (!isBlank ·) := hrun ▸ List.mem_append_left _ ha
      simpa using List.mem_takeWhile_imp hmem
    · calc cs = cs.takeWhile (· ≠ ' ') ++ cs.dropWhile (· ≠ ' ') := by simp
        _ = severity.name.toList ++ ' ' :: afterName := by rw [hafterName, hname]; rfl
        _ = severity.name.toList ++ ' ' ::
            (afterName.takeWhile (!isBlank ·) ++ afterName.dropWhile (!isBlank ·)) := by simp
        _ = matter severity (c :: reversed).reverse message := by
            rw [hrun, hmessage, matter, List.append_assoc]
            rfl
  · cases h

theorem readMatter?_eq_some_iff {cs : List Char} {d : Diagnostic} :
    readMatter? cs = some d ↔ IsCode d.code.toList ∧
      cs = matter d.severity d.code.toList d.message.toList ∧
      d = plain d.severity d.code d.message := by
  constructor
  · intro h
    obtain ⟨severity, code, message, hcode, rfl⟩ := isMatter_of_readMatter? h
    obtain rfl := Option.some.inj ((readMatter?_matter severity message hcode).symm.trans h)
    simpa [plain] using hcode
  · rintro ⟨hcode, rfl, hd⟩
    rw [readMatter?_matter _ _ hcode, String.ofList_toList, String.ofList_toList, ← hd]

/-! ## Positions -/

/-- A position as it is written. -/
def positioned (line column : List Char) : List Char :=
  '(' :: (line ++ ',' :: (column ++ [')']))

/-- Whether characters can be a line or a column: there are some, and they are digits. -/
structure IsCount (cs : List Char) : Prop where
  ne_nil : cs ≠ []
  digit : ∀ c ∈ cs, isPositionDigit c = true

/-- Whether a position can be read, also one that has numbers that stand for nothing. -/
def IsPosition (cs : List Char) : Prop :=
  ∃ line column, IsCount line ∧ IsCount column ∧ cs = positioned line column

theorem readPosition?_positioned {line column : List Char} (hline : IsCount line)
    (hcolumn : IsCount column) (rest : List Char) :
    readPosition? (positioned line column ++ rest) = some (number? line, number? column, rest) := by
  have hcomma : ∀ c ∈ (',' :: (column ++ ')' :: rest)).head?, isPositionDigit c = false := by
    rintro _ ⟨⟩
    decide
  have hparen : ∀ c ∈ (')' :: rest).head?, isPositionDigit c = false := by
    rintro _ ⟨⟩
    decide
  have hsplit : positioned line column ++ rest =
      '(' :: (line ++ ',' :: (column ++ ')' :: rest)) := by simp [positioned]
  rw [hsplit, readPosition?]
  simp only [Option.bind_eq_bind, Option.bind_some, after?, ↓reduceIte]
  rw [takeWhile_append_of_head hline.digit hcomma, dropWhile_append_of_head hline.digit hcomma]
  simp only [Option.bind_some, after?, ↓reduceIte]
  rw [takeWhile_append_of_head hcolumn.digit hparen, dropWhile_append_of_head hcolumn.digit hparen]
  simp [after?, hline.ne_nil, hcolumn.ne_nil]

theorem isPosition_of_readPosition? {cs rest : List Char} {line column : Option UInt32}
    (h : readPosition? cs = some (line, column, rest)) : ∃ p, IsPosition p ∧ cs = p ++ rest := by
  simp only [readPosition?, Option.bind_eq_bind, Option.bind_eq_some_iff, after?_eq_some_iff] at h
  obtain ⟨cs, rfl, afterLine, hline, afterColumn, hcolumn, h⟩ := h
  split at h
  · cases h
  · next hne =>
    obtain ⟨-, -, rfl⟩ : _ ∧ _ ∧ afterColumn = rest := by simpa using h
    rw [Bool.or_eq_true, not_or, List.isEmpty_iff, List.isEmpty_iff] at hne
    refine ⟨positioned (cs.takeWhile isPositionDigit) (afterLine.takeWhile isPositionDigit),
      ⟨_, _, ⟨hne.1, fun c hc ↦ List.mem_takeWhile_imp hc⟩,
        ⟨hne.2, fun c hc ↦ List.mem_takeWhile_imp hc⟩, rfl⟩, ?_⟩
    calc ['('] ++ cs
      _ = '(' :: (cs.takeWhile isPositionDigit ++ cs.dropWhile isPositionDigit) := by simp
      _ = '(' :: (cs.takeWhile isPositionDigit ++ ',' :: (afterLine.takeWhile isPositionDigit ++
            afterLine.dropWhile isPositionDigit)) := by rw [hline]; simp
      _ = _ := by rw [hcolumn]; simp [positioned]

theorem isCount_count (n : UInt32) : IsCount (count n).toList where
  ne_nil := by simpa [count] using Decimal.digits_ne_nil n.toNat
  digit c hc := by
    rw [count, String.toList_ofList] at hc
    exact isPositionDigit_of_isDigit (Decimal.isDigit_of_mem_digits hc)

theorem number?_count (n : UInt32) : number? (count n).toList = some n := by
  rw [number?, count, String.toList_ofList, Decimal.natBelow?_digits n.toNat_lt]
  exact congrArg some n.ofNat_toNat

/-! ## Places -/

/-- What can stand between the name of a file and the colon behind it, and the line and the column
that it gives: nothing, or a position. -/
inductive Locates : List Char → Option UInt32 → Option UInt32 → Prop
  | nothing : Locates [] none none
  | position {line column : List Char} (hline : IsCount line) (hcolumn : IsCount column) :
      Locates (positioned line column) (number? line) (number? column)

/-- Whether a file name can end before the characters: there are a position or nothing, a colon and
a blank, and a matter. -/
def EndsPlace (cs : List Char) : Prop :=
  ∃ p rest, (p = [] ∨ IsPosition p) ∧ IsMatter rest ∧ cs = p ++ ':' :: ' ' :: rest

theorem readAfterFile?_eq_some_iff {start cs : List Char} {d : Diagnostic} :
    readAfterFile? start cs = some d ↔
      d.file = some (String.ofList start.reverse) ∧ IsCode d.code.toList ∧
      ∃ p, Locates p d.line d.column ∧
        cs = p ++ ':' :: ' ' :: matter d.severity d.code.toList d.message.toList := by
  constructor
  · intro h
    simp only [readAfterFile?, Option.orElse_eq_orElse, Option.orElse_eq_or, Option.or_eq_some_iff,
      Option.bind_eq_bind, Option.bind_eq_some_iff, after?_eq_some_iff] at h
    rcases h with ⟨⟨line?, column?, more⟩, hposition, rest, rfl, d', hd', hd⟩ |
      ⟨-, rest, rfl, d', hd', hd⟩
    · obtain ⟨_, ⟨line, column, hline, hcolumn, rfl⟩, rfl⟩ := isPosition_of_readPosition? hposition
      rw [readPosition?_positioned hline hcolumn] at hposition
      cases hposition
      cases hd
      obtain ⟨hcode, rfl, -⟩ := readMatter?_eq_some_iff.mp hd'
      exact ⟨rfl, hcode, _, .position hline hcolumn, rfl⟩
    · cases hd
      obtain ⟨hcode, rfl, hplain⟩ := readMatter?_eq_some_iff.mp hd'
      rw [hplain]
      exact ⟨rfl, hcode, [], .nothing, rfl⟩
  · obtain ⟨file, line, column, severity, code, message⟩ := d
    rintro ⟨rfl, hcode, p, hp, rfl⟩
    dsimp only at hcode hp
    have hmatter : readMatter? (matter severity code.toList message.toList) =
        some (plain severity code message) := readMatter?_eq_some_iff.mpr ⟨hcode, rfl, rfl⟩
    cases hp with
    | nothing =>
        simp [readAfterFile?, readPosition?, after?, hmatter, inFileReversed, inFile, plain]
    | position hline hcolumn =>
        simp [readAfterFile?, readPosition?_positioned hline hcolumn, after?, hmatter,
          inFileReversed, inFile, plain]

theorem readAfterFile?_eq_none_iff {start cs : List Char} :
    readAfterFile? start cs = none ↔ ¬ EndsPlace cs := by
  rw [← not_iff_not, not_not, ← ne_eq, Option.ne_none_iff_exists']
  constructor
  · rintro ⟨⟨file, line, column, severity, code, message⟩, h⟩
    obtain ⟨-, hcode, p, hp, rfl⟩ := readAfterFile?_eq_some_iff.mp h
    refine ⟨p, _, ?_, ⟨_, _, _, hcode, rfl⟩, rfl⟩
    dsimp only at hp
    cases hp with
    | nothing => exact .inl rfl
    | position hline hcolumn => exact .inr ⟨_, _, hline, hcolumn, rfl⟩
  · rintro ⟨p, _, hp, ⟨severity, code, message, hcode, rfl⟩, rfl⟩
    obtain ⟨line, column, hlocates⟩ : ∃ line column, Locates p line column := by
      rcases hp with rfl | ⟨line, column, hline, hcolumn, rfl⟩
      · exact ⟨_, _, .nothing⟩
      · exact ⟨_, _, .position hline hcolumn⟩
    exact ⟨⟨_, line, column, severity, String.ofList code, String.ofList message⟩,
      readAfterFile?_eq_some_iff.mpr ⟨rfl, by simpa using hcode, p, hlocates, by simp⟩⟩

/-- Whether no shorter name of a file can be read in front of the characters. -/
def IsShortest (name cs : List Char) : Prop :=
  ∀ before s, before ≠ [] → s ≠ [] → name = before ++ s → ¬ EndsPlace (s ++ cs)

theorem isShortest_singleton (c : Char) (cs : List Char) : IsShortest [c] cs := by
  intro before s hbefore hs hname
  rcases List.singleton_eq_append_iff.mp hname with ⟨rfl, -⟩ | ⟨-, rfl⟩
  · exact absurd rfl hbefore
  · exact absurd rfl hs

theorem isShortest_cons_iff {c : Char} {name cs : List Char} (hname : name ≠ []) :
    IsShortest (c :: name) cs ↔ ¬ EndsPlace (name ++ cs) ∧ IsShortest name cs := by
  constructor
  · intro h
    refine ⟨h [c] name nofun hname rfl, fun before s hbefore hs heq ↦ ?_⟩
    exact h (c :: before) s nofun hs (congrArg (c :: ·) heq)
  · rintro ⟨hends, h⟩ before s hbefore hs heq
    obtain ⟨rfl, -⟩ | ⟨before, rfl, rfl⟩ := List.cons_eq_append_iff.mp heq
    · exact absurd rfl hbefore
    · rcases eq_or_ne before [] with rfl | hbefore
      · exact hends
      · exact h before s hbefore hs rfl

/-- The shortest file name that can be read is read. -/
theorem readInFile?_eq_some_iff {start cs : List Char} {d : Diagnostic} :
    readInFile? start cs = some d ↔ ∃ name rest, name ≠ [] ∧ cs = name ++ rest ∧
      IsShortest name rest ∧ readAfterFile? (name.reverse ++ start) rest = some d := by
  induction cs generalizing start with
  | nil =>
      refine iff_of_false nofun ?_
      rintro ⟨name, rest, hname, heq, -⟩
      exact hname (List.append_eq_nil_iff.mp heq.symm).1
  | cons c cs ih =>
      rw [readInFile?]
      cases hread : readAfterFile? (c :: start) cs with
      | some d' =>
          constructor
          · rintro ⟨⟩
            exact ⟨[c], cs, nofun, rfl, isShortest_singleton c cs, hread⟩
          · rintro ⟨name, rest, hname, heq, hshort, hafter⟩
            obtain ⟨rfl, -⟩ | ⟨name, rfl, rfl⟩ := List.cons_eq_append_iff.mp heq
            · exact absurd rfl hname
            · rcases eq_or_ne name [] with rfl | hname
              · exact hread.symm.trans hafter
              · have hends := ((isShortest_cons_iff hname).mp hshort).1
                rw [readAfterFile?_eq_none_iff.mpr hends] at hread
                cases hread
      | none =>
          show readInFile? (c :: start) cs = some d ↔ _
          rw [ih]
          constructor
          · rintro ⟨name, rest, hname, rfl, hshort, hafter⟩
            refine ⟨c :: name, rest, nofun, rfl, ?_, by simpa using hafter⟩
            exact (isShortest_cons_iff hname).mpr ⟨readAfterFile?_eq_none_iff.mp hread, hshort⟩
          · rintro ⟨name, rest, hname, heq, hshort, hafter⟩
            obtain ⟨rfl, -⟩ | ⟨name, rfl, rfl⟩ := List.cons_eq_append_iff.mp heq
            · exact absurd rfl hname
            · rcases eq_or_ne name [] with rfl | hname
              · cases hread.symm.trans hafter
              · exact ⟨name, rest, hname, rfl, ((isShortest_cons_iff hname).mp hshort).2,
                  by simpa using hafter⟩

theorem readInFile?_eq_none {start cs : List Char} (h : ∀ s, s <:+ cs → ¬ EndsPlace s) :
    readInFile? start cs = none := by
  induction cs generalizing start with
  | nil => rfl
  | cons c cs ih =>
      rw [readInFile?, readAfterFile?_eq_none_iff.mpr (h cs (List.suffix_cons _ _))]
      exact ih fun s hs ↦ h s (hs.trans (List.suffix_cons _ _))

/-! ## Names of files -/

/-- Whether a severity is announced: its name stands behind a colon and a blank and before a
blank. -/
def Announces (cs : List Char) : Prop :=
  ∃ severity : Severity, ':' :: ' ' :: (severity.name.toList ++ [' ']) <:+: cs

theorem Announces.mono {cs ds : List Char} (h : Announces cs) (hcs : cs <:+: ds) :
    Announces ds := by
  obtain ⟨severity, hseverity⟩ := h
  exact ⟨severity, hseverity.trans hcs⟩

/-- No severity is announced at the end of text by what has no blank. -/
theorem Announces.of_append {cs ds : List Char} (hds : ' ' ∉ ds) (h : Announces (cs ++ ds)) :
    Announces cs := by
  obtain ⟨severity, before, rest, heq⟩ := h
  have hsplit : (before ++ ':' :: ' ' :: severity.name.toList) ++ ' ' :: rest = cs ++ ds := by
    simpa using heq
  rcases List.append_eq_append_iff.mp hsplit with ⟨more, rfl, hmore⟩ | ⟨more, -, rfl⟩
  · cases more with
    | nil =>
        obtain rfl : ' ' :: rest = ds := hmore
        exact absurd (.head _) hds
    | cons c more =>
        obtain rfl : ' ' = c := (List.cons.inj hmore).1
        exact ⟨severity, before, more, by simp⟩
  · simp at hds

theorem IsPosition.notMem_tail {p : List Char} (h : IsPosition p) {c : Char}
    (hdigit : isPositionDigit c = false) (hmark : c ∉ [',', ')']) : c ∉ p.tail := by
  obtain ⟨line, column, hline, hcolumn, rfl⟩ := h
  have hnot {cs : List Char} (hcs : IsCount cs) : c ∉ cs := fun hc ↦ by
    rw [hcs.digit c hc] at hdigit
    cases hdigit
  rw [List.mem_cons, not_or, List.mem_singleton] at hmark
  simp [positioned, hnot hline, hnot hcolumn, hmark]

/-- A matter does not start in front of a mark, unless the name of its severity and the blank behind
it stand there.  The code may stand on both sides of the mark. -/
theorem IsMatter.eq_append {s rest : List Char} {c : Char} (hc : c.isLower = false)
    (hblank : c ≠ ' ') (h : IsMatter (s ++ c :: rest)) :
    ∃ (severity : Severity) (t code message : List Char), IsCode code ∧
      s = severity.name.toList ++ ' ' :: t ∧ t ++ c :: rest = code ++ ':' :: ' ' :: message := by
  obtain ⟨severity, code, message, hcode, heq⟩ := h
  refine ⟨severity, ?_⟩
  rw [matter] at heq
  rcases List.append_eq_append_iff.mp heq with ⟨more, hname, hmore⟩ | ⟨more, rfl, hmore⟩
  · cases more with
    | nil => exact absurd (List.cons.inj hmore).1 hblank
    | cons a more =>
        obtain rfl : c = a := (List.cons.inj hmore).1
        exact absurd (by simp [hname]) (notMem_name hc severity)
  · cases more with
    | nil => exact absurd (List.cons.inj hmore).1.symm hblank
    | cons a t =>
        obtain ⟨rfl, hcode'⟩ := List.cons.inj hmore
        exact ⟨t, code, message, hcode, rfl, hcode'.symm⟩

/-- What stands behind a colon and a blank starts in front of a mark or behind it. -/
theorem before_or_behind {s rest before m : List Char} {c : Char} (hblank : c ≠ ' ')
    (heq : s ++ c :: rest = before ++ ':' :: ' ' :: m) :
    (∃ t, s = before ++ ':' :: ' ' :: t ∧ m = t ++ c :: rest) ∨
      ∃ more, before = s ++ more ∧ c :: rest = more ++ ':' :: ' ' :: m := by
  rcases List.append_eq_append_iff.mp heq with hbehind | ⟨more, rfl, hmore⟩
  · exact .inr hbehind
  · match more, hmore with
    | [], hmore => exact .inr ⟨[], by simp, hmore.symm⟩
    | [a], hmore => exact absurd (List.cons.inj (List.cons.inj hmore).2).1.symm hblank
    | a :: b :: t, hmore =>
        obtain ⟨rfl, rfl, rfl⟩ : a = ':' ∧ b = ' ' ∧ m = t ++ c :: rest := by
          simpa [eq_comm] using hmore
        exact .inl ⟨t, rfl, rfl⟩

/-- A matter behind a colon and a blank stands behind a mark, unless a severity is announced before
the mark. -/
theorem announces_or_behind {s rest before m : List Char} {c : Char} (hc : c.isLower = false)
    (hblank : c ≠ ' ') (hm : IsMatter m) (heq : s ++ c :: rest = before ++ ':' :: ' ' :: m) :
    Announces s ∨ ∃ more, before = s ++ more ∧ c :: rest = more ++ ':' :: ' ' :: m := by
  refine (before_or_behind hblank heq).imp_left ?_
  rintro ⟨_, rfl, rfl⟩
  obtain ⟨severity, t, -, -, -, rfl, -⟩ := hm.eq_append hc hblank
  exact ⟨severity, before, t, by simp⟩

/-- The marks that can stand behind the name of a file are no small letters and no blanks, and no
position goes on with them. -/
theorem mark_cases {c : Char} (hc : c ∈ ['(', ':']) :
    c.isLower = false ∧ c ≠ ' ' ∧ isPositionDigit c = false ∧ c ∉ [',', ')'] := by
  have hmarks : ∀ c ∈ ['(', ':'], c.isLower = false ∧ c ≠ ' ' ∧ isPositionDigit c = false ∧
    c ∉ [',', ')'] := by decide
  exact hmarks c hc

/-- A file name ends in front of a mark only if its position stands there, or a colon, a blank and
the start of a matter. -/
theorem EndsPlace.eq_append {s rest : List Char} {c : Char} (hs : s ≠ []) (hc : c ∈ ['(', ':'])
    (h : EndsPlace (s ++ c :: rest)) :
    (c = ':' ∧ IsPosition s) ∨
      ∃ p t, (p = [] ∨ IsPosition p) ∧ s = p ++ ':' :: ' ' :: t ∧ IsMatter (t ++ c :: rest) := by
  obtain ⟨p, m, hp, hm, heq⟩ := h
  obtain ⟨-, hblank, hdigit, hend⟩ := mark_cases hc
  rcases before_or_behind hblank heq with ⟨t, rfl, rfl⟩ | ⟨more, rfl, hmore⟩
  · exact .inr ⟨p, t, hp, rfl, hm⟩
  · have hp : IsPosition (s ++ more) := hp.resolve_left (by simp [hs])
    cases more with
    | nil =>
        rw [List.append_nil] at hp
        exact .inl ⟨(List.cons.inj hmore).1, hp⟩
    | cons a more =>
        obtain rfl : c = a := (List.cons.inj hmore).1
        obtain ⟨a, s, rfl⟩ := List.exists_cons_of_ne_nil hs
        exact absurd (by simp) (hp.notMem_tail hdigit hend)

/-- A file name does not end where a severity is not announced, in front of its position or of what
follows it if there is none. -/
theorem not_endsPlace_append {s rest : List Char} {c : Char} (hs : s ≠ []) (hc : c ∈ ['(', ':'])
    (hannounces : ¬ Announces s) (hposition : c = ':' → ¬ IsPosition s) :
    ¬ EndsPlace (s ++ c :: rest) := by
  intro h
  obtain ⟨hlower, hblank, -, -⟩ := mark_cases hc
  rcases h.eq_append hs hc with ⟨hcolon, hp⟩ | ⟨p, t, -, rfl, hm⟩
  · exact hposition hcolon hp
  · obtain ⟨severity, t, -, -, -, rfl, -⟩ := hm.eq_append hlower hblank
    exact hannounces ⟨severity, p, t, by simp⟩

/-- Whether a name of a file can be told from what stands behind it. -/
structure IsFileName (name : List Char) : Prop where
  ne_nil : name ≠ []
  one_line : '\n' ∉ name
  not_announces : ¬ Announces name

/-- A file name is read as far as it goes. -/
theorem IsFileName.readInFile?_append {name rest : List Char} {c : Char} {d : Diagnostic}
    (h : IsFileName name) (hc : c ∈ ['(', ':'])
    (hposition : c = ':' → ∀ p, p <:+ name → ¬ IsPosition p)
    (hread : readAfterFile? name.reverse (c :: rest) = some d) :
    readInFile? [] (name ++ c :: rest) = some d := by
  refine readInFile?_eq_some_iff.mpr ⟨name, _, h.ne_nil, rfl, ?_, by rwa [List.append_nil]⟩
  rintro before s - hs rfl
  have hsuffix : s <:+ before ++ s := List.suffix_append before s
  exact not_endsPlace_append hs hc
    (fun hannounces ↦ h.not_announces (hannounces.mono hsuffix.isInfix))
    fun hcolon ↦ hposition hcolon s hsuffix

/-- Whether a matter stands behind a colon and a blank. -/
def HoldsMatter (cs : List Char) : Prop :=
  ∃ before m, IsMatter m ∧ cs = before ++ ':' :: ' ' :: m

theorem not_announces_of_notMem {cs : List Char} (h : ':' ∉ cs) : ¬ Announces cs := by
  rintro ⟨severity, hpart⟩
  exact h (hpart.subset (.head _))

theorem not_holdsMatter_of_notMem {cs : List Char} (h : ':' ∉ cs) : ¬ HoldsMatter cs := by
  rintro ⟨before, m, -, rfl⟩
  exact h (List.mem_append_right _ (.head _))

theorem not_holdsMatter_append {s rest : List Char} {c : Char} (hc : c.isLower = false)
    (hmark : c ∉ [' ', ':']) (hs : ¬ Announces s) (hrest : ¬ HoldsMatter rest) :
    ¬ HoldsMatter (s ++ c :: rest) := by
  rintro ⟨before, m, hm, heq⟩
  rw [List.mem_cons, List.mem_singleton, not_or] at hmark
  obtain ⟨more, -, hmore⟩ := (announces_or_behind hc hmark.1 hm heq).resolve_left hs
  cases more with
  | nil => exact hmark.2 (List.cons.inj hmore).1
  | cons a more => exact hrest ⟨more, m, hm, (List.cons.inj hmore).2⟩

/-- Quoted text between texts without matters makes none, if it announces no severity. -/
theorem not_holdsMatter_quoting {start quoted rest : List Char} (hstart : ':' ∉ start)
    (hquoted : ¬ Announces quoted) (hrest : ¬ HoldsMatter rest) :
    ¬ HoldsMatter (start ++ '\'' :: (quoted ++ '\'' :: rest)) :=
  not_holdsMatter_append rfl (by decide) (not_announces_of_notMem hstart)
    (not_holdsMatter_append rfl (by decide) hquoted hrest)

theorem IsMatter.head_mem {c : Char} {cs : List Char} (h : IsMatter (c :: cs)) :
    c ∈ ['e', 'w', 'm'] := by
  obtain ⟨severity, code, message, -, heq⟩ := h
  cases severity with
  | error => exact (List.cons.inj heq).1 ▸ .head _
  | warning => exact (List.cons.inj heq).1 ▸ .tail _ (.head _)
  | message => exact (List.cons.inj heq).1 ▸ .tail _ (.tail _ (.head _))

/-- What starts with no severity is no matter behind a colon and a blank. -/
theorem not_holdsMatter_behind {c : Char} {cs : List Char} (hc : c ∉ ['e', 'w', 'm'])
    (h : ¬ HoldsMatter (c :: cs)) : ¬ HoldsMatter (':' :: ' ' :: c :: cs) := by
  rintro ⟨before, m, hm, heq⟩
  match before, heq with
  | [], heq =>
      obtain rfl : c :: cs = m := (List.cons.inj (List.cons.inj heq).2).2
      exact hc hm.head_mem
  | [a], heq => cases (List.cons.inj (List.cons.inj heq).2).1
  | a :: b :: before, heq => exact h ⟨before, m, hm, (List.cons.inj (List.cons.inj heq).2).2⟩

/-- Before a message there is no blank behind a colon but the one in front of it. -/
theorem readInFile?_matter {severity : Severity} {code message : List Char} (hcode : IsCode code)
    (hmessage : ¬ HoldsMatter (':' :: ' ' :: message)) :
    readInFile? [] (matter severity code message) = none := by
  refine readInFile?_eq_none ?_
  rintro _ ⟨before, hs⟩ ⟨p, m, -, hm, rfl⟩
  have hsplit : matter severity code message =
      (severity.name.toList ++ ' ' :: code) ++ ':' :: ' ' :: message := by simp [matter]
  have hannounces : ¬ Announces (severity.name.toList ++ ' ' :: code) := by
    rintro ⟨other, start, rest, heq⟩
    have hblank : ' ' ∉ code := fun hmem ↦ by cases hcode.not_blank _ hmem
    have heq' : severity.name.toList ++ ' ' :: code =
        (start ++ [':']) ++ ' ' :: (other.name.toList ++ [' '] ++ rest) := by simp [← heq]
    obtain ⟨hname, -⟩ := (List.append_cons_inj_of_notMem
      (notMem_name (by decide) severity) hblank).mp heq'
    exact notMem_name (c := ':') (by decide) severity (by simp [hname])
  rw [hsplit, ← List.append_assoc] at hs
  obtain ⟨more, -, hmore⟩ :=
    (announces_or_behind (by decide) (by decide) hm hs.symm).resolve_left hannounces
  exact hmessage ⟨more, m, hm, hmore⟩

/-! ## Diagnostics -/

theorem ofLine?_of_endsSolid {line : String} (hline : '\n' ∉ line.toList)
    (h : EndsSolid line.toList) :
    ofLine? line = (readInFile? [] line.toList <|> readMatter? line.toList) := by
  rw [ofLine?, trimRight_of_endsSolid h, readTrimmed?, if_neg (by simpa using hline)]

/-- Whether the place of a diagnostic with a message can be told from the rest of its line. -/
inductive IsClearPlace (message : List Char) :
    Option String → Option UInt32 → Option UInt32 → Prop
  | located {file : String} (line column : UInt32) (hfile : IsFileName file.toList) :
      IsClearPlace message (some file) (some line) (some column)
  | inFile {file : String} (hfile : IsFileName file.toList)
      (hposition : ∀ p, p <:+ file.toList → ¬ IsPosition p) :
      IsClearPlace message (some file) none none
  | nowhere (hmessage : ¬ HoldsMatter (':' :: ' ' :: message)) :
      IsClearPlace message none none none

/-- Whether a diagnostic can be read off its line. -/
structure Legible (d : Diagnostic) : Prop where
  code : IsCode d.code.toList
  one_line : '\n' ∉ d.message.toList
  solid : EndsSolid d.message.toList
  place : IsClearPlace d.message.toList d.file d.line d.column

theorem toList_text (d : Diagnostic) :
    d.text.toList = d.placeText.toList ++ matter d.severity d.code.toList d.message.toList := by
  simp [text, matter]

namespace Legible

variable {d : Diagnostic}

theorem endsSolid_text (h : d.Legible) : EndsSolid d.text.toList := by
  have hmatter : matter d.severity d.code.toList d.message.toList =
      (d.severity.name.toList ++ ' ' :: (d.code.toList ++ [':', ' '])) ++ d.message.toList := by
    simp [matter]
  rw [toList_text, hmatter, ← List.append_assoc]
  exact h.solid.append _

theorem one_line_text (h : d.Legible) : '\n' ∉ d.text.toList := by
  have hname : '\n' ∉ d.severity.name.toList := notMem_name (by decide) d.severity
  have hcode : '\n' ∉ d.code.toList := fun hmem ↦ by cases h.code.not_blank _ hmem
  have hcount (n : UInt32) : '\n' ∉ (count n).toList := fun hmem ↦ by
    cases (isCount_count n).digit _ hmem
  have hplace : '\n' ∉ d.placeText.toList := by
    obtain ⟨file, line, column, severity, code, message⟩ := d
    cases h.place with
    | located line column hfile => simp [placeText, hfile.one_line, hcount]
    | inFile hfile hposition => simp [placeText, hfile.one_line]
    | nowhere hmessage => simp [placeText]
  rw [toList_text, matter]
  simp [hname, hcode, hplace, h.one_line]

/-- A legible diagnostic is got back from its line. -/
theorem ofLine?_text (h : d.Legible) : ofLine? d.text = some d := by
  rw [ofLine?_of_endsSolid h.one_line_text h.endsSolid_text, toList_text]
  have hmatter := readMatter?_matter d.severity d.message.toList h.code
  rw [String.ofList_toList, String.ofList_toList] at hmatter
  obtain ⟨file, line, column, severity, code, message⟩ := d
  cases h.place with
  | @located file line column hfile =>
      have hafter : readAfterFile? file.toList.reverse
          (positioned (count line).toList (count column).toList ++
            ':' :: ' ' :: matter severity code.toList message.toList) =
          some ⟨some file, some line, some column, severity, code, message⟩ := by
        simp [readAfterFile?, readPosition?_positioned (isCount_count line) (isCount_count column),
          number?_count, after?, hmatter, inFileReversed, inFile, plain]
      have htext :
          (placeText ⟨some file, some line, some column, severity, code, message⟩).toList ++
            matter severity code.toList message.toList =
            file.toList ++ (positioned (count line).toList (count column).toList ++
              ':' :: ' ' :: matter severity code.toList message.toList) := by
        simp [placeText, positioned]
      have hread := hfile.readInFile?_append (c := '(') (by simp) nofun hafter
      rw [htext]
      exact congrArg (· <|> _) hread
  | @inFile file hfile hposition =>
      have hafter : readAfterFile? file.toList.reverse
          (':' :: ' ' :: matter severity code.toList message.toList) =
          some ⟨some file, none, none, severity, code, message⟩ := by
        simp [readAfterFile?, readPosition?, after?, hmatter, inFileReversed, Diagnostic.inFile,
          plain]
      have htext : (placeText ⟨some file, none, none, severity, code, message⟩).toList ++
          matter severity code.toList message.toList =
            file.toList ++ ':' :: ' ' :: matter severity code.toList message.toList := by
        simp [placeText]
      rw [htext, hfile.readInFile?_append (by simp) (fun _ ↦ hposition) hafter]
      rfl
  | nowhere hmessage =>
      show (readInFile? [] (matter severity code.toList message.toList) <|>
        readMatter? (matter severity code.toList message.toList)) = _
      rw [readInFile?_matter h.code hmessage, hmatter]
      rfl

end Legible

end PipedCompiler.Diagnostic
