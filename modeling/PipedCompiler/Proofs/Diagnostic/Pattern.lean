import PipedCompiler.Proofs.Diagnostic.Reading
import PipedCompiler.Proofs.Text.Pattern

/-!
# The pattern of lines that show diagnostics

A line shows a diagnostic if a pattern fits it.  Reading a line comes to the same as trying all the
ways in which the pattern fits, in their order.
-/

namespace PipedCompiler.Diagnostic

open PipedCompiler.Text

/-! ## The pattern -/

/-- The parts of a line that shows a diagnostic. -/
inductive Part where
  | file
  | line
  | column
  | severity
  | code
  | message
  deriving DecidableEq

/-- Whether a character can stand in a line. -/
def staysInLine (c : Char) : Bool :=
  c ≠ '\n'

/-- The pattern `(?P<severity>error|warning|message)`. -/
def severityPattern : Pattern Part :=
  .part .severity
    (.either (.text "error".toList) (.either (.text "warning".toList) (.text "message".toList)))

/-- The pattern of severity, code and message: a severity and
` (?P<code>\S+): (?P<message>.*)`. -/
def matterPattern : Pattern Part :=
  .seq severityPattern (.seq (.text [' ']) (.seq (.part .code (.oneOrMore (!isBlank ·)))
    (.seq (.text [':', ' ']) (.part .message (.many staysInLine)))))

/-- The pattern `\((?P<line>\d+),(?P<column>\d+)\)`. -/
def positionPattern : Pattern Part :=
  .seq (.text ['(']) (.seq (.part .line (.oneOrMore isPositionDigit))
    (.seq (.text [',']) (.seq (.part .column (.oneOrMore isPositionDigit)) (.text [')']))))

/-- The pattern of places: `(?P<file>.+?)`, a position if there is one, and `: `. -/
def placePattern : Pattern Part :=
  .seq (.part .file (.oneOrFew staysInLine)) (.seq (.optional positionPattern) (.text [':', ' ']))

/-- The pattern of lines that show diagnostics: a place if there is one, and severity, code and
message. -/
def linePattern : Pattern Part :=
  .seq (.optional placePattern) matterPattern

/-- The diagnostic that has the parts of a line. -/
def ofParts? (parts : List (Part × List Char)) : Option Diagnostic := do
  let severity ← Severity.ofName? (String.ofList (← parts.lookup .severity))
  let code ← parts.lookup .code
  let message ← parts.lookup .message
  some ⟨(parts.lookup .file).map String.ofList, (parts.lookup .line).bind number?,
    (parts.lookup .column).bind number?, severity, String.ofList code, String.ofList message⟩

/-! ## What the patterns fit -/

theorem fits_severityPattern {cs : List Char} {parts : List (Part × List Char)} :
    severityPattern.Fits cs parts ↔
      ∃ severity : Severity, cs = severity.name.toList ∧ parts = [(.severity, cs)] := by
  constructor
  · rintro ⟨_, ⟨rfl, rfl⟩ | ⟨rfl, rfl⟩ | ⟨rfl, rfl⟩, rfl⟩
    · exact ⟨.error, rfl, rfl⟩
    · exact ⟨.warning, rfl, rfl⟩
    · exact ⟨.message, rfl, rfl⟩
  · rintro ⟨severity, rfl, rfl⟩
    refine ⟨[], ?_, rfl⟩
    cases severity with
    | error => exact .inl ⟨rfl, rfl⟩
    | warning => exact .inr (.inl ⟨rfl, rfl⟩)
    | message => exact .inr (.inr ⟨rfl, rfl⟩)

theorem forall_staysInLine_iff {cs : List Char} :
    (∀ c ∈ cs, staysInLine c = true) ↔ '\n' ∉ cs := by
  simp [staysInLine, List.forall_mem_ne']

/-- The parts of severity, code and message. -/
def matterParts (d : Diagnostic) : List (Part × List Char) :=
  [(.severity, d.severity.name.toList), (.code, d.code.toList), (.message, d.message.toList)]

theorem fits_matterPattern {cs : List Char} {parts : List (Part × List Char)} :
    matterPattern.Fits cs parts ↔ ∃ severity code message, IsCode code ∧ '\n' ∉ message ∧
      cs = matter severity code message ∧
      parts = matterParts (plain severity (String.ofList code) (String.ofList message)) := by
  constructor
  · rintro ⟨_, _, _, _, hname, ⟨_, _, _, _, ⟨rfl, rfl⟩, hcode, rfl, rfl⟩, rfl, rfl⟩
    obtain ⟨severity, rfl, rfl⟩ := fits_severityPattern.mp hname
    obtain ⟨code, _, _, _, ⟨_, hcode, rfl⟩, hcolon, rfl, rfl⟩ := hcode
    obtain ⟨_, _, message, _, ⟨rfl, rfl⟩, ⟨_, ⟨hmessage, rfl⟩, rfl⟩, rfl, rfl⟩ := hcolon
    obtain ⟨⟨hne, hblank⟩, rfl⟩ := Pattern.fits_oneOrMore.mp hcode
    refine ⟨severity, code, message, ⟨hne, by simpa using hblank⟩,
      forall_staysInLine_iff.mp hmessage, ?_, ?_⟩
    · simp [matter]
    · simp [matterParts, plain]
  · rintro ⟨severity, code, message, hcode, hmessage, rfl, rfl⟩
    have hname : severityPattern.Fits severity.name.toList [(.severity, severity.name.toList)] :=
      fits_severityPattern.mpr ⟨severity, rfl, rfl⟩
    have hrun : (Pattern.oneOrMore (!isBlank ·)).Fits code ([] : List (Part × List Char)) :=
      Pattern.fits_oneOrMore.mpr ⟨⟨hcode.ne_nil, by simpa using hcode.not_blank⟩, rfl⟩
    have hrest : (Pattern.many staysInLine).Fits message ([] : List (Part × List Char)) :=
      ⟨forall_staysInLine_iff.mpr hmessage, rfl⟩
    simpa [matterPattern, matter, matterParts, plain] using
      hname.seq <| (Pattern.Fits.text [' ']).seq <| (hrun.part .code).seq <|
        (Pattern.Fits.text [':', ' ']).seq (hrest.part .message)

theorem fits_positionPattern {cs : List Char} {parts : List (Part × List Char)} :
    positionPattern.Fits cs parts ↔ ∃ line column, IsCount line ∧ IsCount column ∧
      cs = positioned line column ∧ parts = [(.line, line), (.column, column)] := by
  constructor
  · rintro ⟨_, _, _, _, ⟨rfl, rfl⟩, hline, rfl, rfl⟩
    obtain ⟨line, _, _, _, ⟨_, hline, rfl⟩, hcomma, rfl, rfl⟩ := hline
    obtain ⟨_, _, _, _, ⟨rfl, rfl⟩, hcolumn, rfl, rfl⟩ := hcomma
    obtain ⟨column, _, _, _, ⟨_, hcolumn, rfl⟩, ⟨rfl, rfl⟩, rfl, rfl⟩ := hcolumn
    obtain ⟨⟨hne, hdigit⟩, rfl⟩ := Pattern.fits_oneOrMore.mp hline
    obtain ⟨⟨hne', hdigit'⟩, rfl⟩ := Pattern.fits_oneOrMore.mp hcolumn
    exact ⟨line, column, ⟨hne, hdigit⟩, ⟨hne', hdigit'⟩, rfl, rfl⟩
  · rintro ⟨line, column, hline, hcolumn, rfl, rfl⟩
    have hrun {cs : List Char} (h : IsCount cs) :
        (Pattern.oneOrMore isPositionDigit).Fits cs ([] : List (Part × List Char)) :=
      Pattern.fits_oneOrMore.mpr ⟨⟨h.ne_nil, h.digit⟩, rfl⟩
    exact (Pattern.Fits.text ['(']).seq <| ((hrun hline).part .line).seq <|
      (Pattern.Fits.text [',']).seq <| ((hrun hcolumn).part .column).seq (Pattern.Fits.text [')'])

/-! ## Reading by trying -/

theorem mem_attempts_matterPattern {cs : List Char} {m : Match Part} (hcs : '\n' ∉ cs)
    (hrest : m.rest = []) :
    m ∈ matterPattern.attempts cs ↔ ∃ d, readMatter? cs = some d ∧ m = ⟨cs, matterParts d, []⟩ := by
  obtain ⟨taken, parts, rest⟩ := m
  obtain rfl : rest = [] := hrest
  rw [Pattern.mem_attempts, fits_matterPattern, List.append_nil]
  constructor
  · rintro ⟨⟨severity, code, message, hcode, -, hmatter, hparts⟩, rfl⟩
    dsimp only at hmatter hparts
    exact ⟨_, hmatter ▸ readMatter?_matter severity message hcode, by rw [hparts]⟩
  · rintro ⟨d, hd, hm⟩
    obtain ⟨rfl, rfl, -⟩ := Match.mk.inj hm
    obtain ⟨severity, code, message, hcode, rfl⟩ := isMatter_of_readMatter? hd
    obtain rfl := Option.some.inj ((readMatter?_matter severity message hcode).symm.trans hd)
    refine ⟨⟨severity, code, message, hcode, fun hmem ↦ hcs ?_, rfl, rfl⟩, rfl⟩
    simp [matter, hmem]

theorem mem_attempts_positionPattern {cs : List Char} {m : Match Part} :
    m ∈ positionPattern.attempts cs ↔ ∃ line column, IsCount line ∧ IsCount column ∧
      cs = positioned line column ++ m.rest ∧
      m = ⟨positioned line column, [(.line, line), (.column, column)], m.rest⟩ := by
  obtain ⟨taken, parts, rest⟩ := m
  rw [Pattern.mem_attempts, fits_positionPattern]
  constructor
  · rintro ⟨⟨line, column, hline, hcolumn, rfl, rfl⟩, rfl⟩
    exact ⟨line, column, hline, hcolumn, rfl, rfl⟩
  · rintro ⟨line, column, hline, hcolumn, hcs, hm⟩
    obtain ⟨rfl, rfl, -⟩ := Match.mk.inj hm
    exact ⟨⟨line, column, hline, hcolumn, rfl, rfl⟩, hcs⟩

/-- Digits end at the first character that is none. -/
theorem IsCount.append_cons_inj {cs cs' rest rest' : List Char} {c : Char} (hcs : IsCount cs)
    (hcs' : IsCount cs') (hc : isPositionDigit c = false)
    (h : cs ++ c :: rest = cs' ++ c :: rest') : cs = cs' ∧ rest = rest' := by
  have hhead (rest : List Char) : ∀ d ∈ (c :: rest).head?, isPositionDigit d = false := by
    rintro _ ⟨⟩
    exact hc
  have heq : cs = cs' := by
    rw [← takeWhile_append_of_head hcs.digit (hhead rest), h,
      takeWhile_append_of_head hcs'.digit (hhead rest')]
  rw [heq, List.append_cancel_left_eq, List.cons.injEq] at h
  exact ⟨heq, h.2⟩

theorem positioned_append_inj {line line' column column' rest rest' : List Char}
    (hline : IsCount line) (hcolumn : IsCount column) (hline' : IsCount line')
    (hcolumn' : IsCount column')
    (h : positioned line column ++ rest = positioned line' column' ++ rest') :
    line = line' ∧ column = column' ∧ rest = rest' := by
  have hsplit (line column rest : List Char) : positioned line column ++ rest =
      '(' :: (line ++ ',' :: (column ++ ')' :: rest)) := by simp [positioned]
  rw [hsplit, hsplit] at h
  obtain ⟨rfl, hbehind⟩ := hline.append_cons_inj hline' (by decide) (List.cons.inj h).2
  obtain ⟨rfl, rfl⟩ := hcolumn.append_cons_inj hcolumn' (by decide) hbehind
  exact ⟨rfl, rfl, rfl⟩

/-- The diagnostic of a match, if nothing is left. -/
def found (m : Match Part) : Option (Option Diagnostic) :=
  if m.rest = [] then some (ofParts? m.parts) else none

theorem findSome?_matterPattern {cs : List Char} (hcs : '\n' ∉ cs) (before : Match Part) :
    (matterPattern.attempts cs).findSome? (found ∘ before.append) =
      (readMatter? cs).map fun d ↦ ofParts? (before.parts ++ matterParts d) := by
  have hfound {m : Match Part} (hm : (found ∘ before.append) m ≠ none) : m.rest = [] := by
    by_contra hrest
    exact hm (if_neg hrest)
  cases hread : readMatter? cs with
  | none =>
      refine List.findSome?_eq_none_iff.mpr fun m hm ↦ ?_
      by_contra hne
      obtain ⟨d, hd, -⟩ := (mem_attempts_matterPattern hcs (hfound hne)).mp hm
      cases hread.symm.trans hd
  | some d =>
      refine Pattern.findSome?_eq_of_unique
        ((mem_attempts_matterPattern hcs rfl).mpr ⟨d, hread, rfl⟩) fun n hn hne ↦ ?_
      obtain ⟨d', hd', hn'⟩ := (mem_attempts_matterPattern hcs (hfound hne)).mp hn
      rw [hn', Option.some.inj (hread.symm.trans hd')]

theorem findSome?_positionPattern {β : Type} (k : Match Part → Option β)
    {line column : List Char} (hline : IsCount line) (hcolumn : IsCount column)
    (rest : List Char) :
    (positionPattern.attempts (positioned line column ++ rest)).findSome? k =
      k ⟨positioned line column, [(.line, line), (.column, column)], rest⟩ := by
  refine Pattern.findSome?_eq_of_unique
    (mem_attempts_positionPattern.mpr ⟨line, column, hline, hcolumn, rfl, rfl⟩) fun n hn _ ↦ ?_
  obtain ⟨line', column', hline', hcolumn', heq, hn'⟩ := mem_attempts_positionPattern.mp hn
  obtain ⟨rfl, rfl, hrest⟩ := positioned_append_inj hline hcolumn hline' hcolumn' heq
  rw [hn', ← hrest]

theorem attempts_positionPattern {cs : List Char} (h : readPosition? cs = none) :
    positionPattern.attempts cs = [] := by
  refine List.eq_nil_iff_forall_not_mem.mpr fun m hm ↦ ?_
  obtain ⟨line, column, hline, hcolumn, rfl, -⟩ := mem_attempts_positionPattern.mp hm
  rw [readPosition?_positioned hline hcolumn] at h
  cases h

theorem findSome?_text {β : Type} (k : Match Part → Option β) (expected cs : List Char) :
    ((Pattern.text expected).attempts cs).findSome? k =
      (after? expected cs).bind fun rest ↦ k ⟨expected, [], rest⟩ := by
  rw [Pattern.attempts]
  cases hafter : after? expected cs with
  | none =>
      have hne : ¬ expected.isPrefixOf cs = true := fun h ↦ by
        obtain ⟨rest, hrest⟩ := List.isPrefixOf_iff_prefix.mp h
        rw [after?_eq_some_iff.mpr hrest.symm] at hafter
        cases hafter
      rw [if_neg hne]
      rfl
  | some rest =>
      obtain rfl := after?_eq_some_iff.mp hafter
      rw [if_pos (by simp), List.drop_left, Pattern.findSome?_cons, List.findSome?_nil,
        Option.or_none]
      rfl

theorem eq_plain_of_readMatter? {cs : List Char} {d : Diagnostic} (h : readMatter? cs = some d) :
    d = plain d.severity d.code d.message :=
  (readMatter?_eq_some_iff.mp h).2.2

theorem lookup_matterParts (d : Diagnostic) (part : Part) :
    (matterParts d).lookup part = match part with
      | .severity => some d.severity.name.toList
      | .code => some d.code.toList
      | .message => some d.message.toList
      | _ => none := by
  cases part <;> rfl

/-- A diagnostic is made of its parts. -/
theorem ofParts?_matterParts {before : List (Part × List Char)} (d : Diagnostic)
    (hseverity : before.lookup .severity = none) (hcode : before.lookup .code = none)
    (hmessage : before.lookup .message = none) :
    ofParts? (before ++ matterParts d) = some
      ⟨(before.lookup .file).map String.ofList, (before.lookup .line).bind number?,
        (before.lookup .column).bind number?, d.severity, d.code, d.message⟩ := by
  simp [ofParts?, List.lookup_append, lookup_matterParts, hseverity, hcode, hmessage, ofName?_name]

/-- The diagnostic of the first match of severity, code and message behind a match. -/
def foundBehind (m : Match Part) : Option (Option Diagnostic) :=
  (matterPattern.attempts m.rest).findSome? (found ∘ m.append)

/-- Behind a place, the pattern is found to fit what can be read there. -/
theorem findSome?_colon {cs : List Char} (hcs : '\n' ∉ cs) {before : Match Part}
    (place : Diagnostic → Diagnostic)
    (hplace : ∀ severity code message, ofParts? (before.parts ++
      matterParts (plain severity code message)) = some (place (plain severity code message))) :
    ((Pattern.text [':', ' ']).attempts cs).findSome? (foundBehind ∘ before.append) =
      (do let d ← readMatter? (← after? [':', ' '] cs); some (place d) :
        Option Diagnostic).map some := by
  rw [findSome?_text]
  cases hafter : after? [':', ' '] cs with
  | none => rfl
  | some rest =>
      have hrest : '\n' ∉ rest := fun hmem ↦ by
        rw [after?_eq_some_iff.mp hafter] at hcs
        exact hcs (List.mem_append_right _ hmem)
      have hbehind : foundBehind (before.append ⟨[':', ' '], [], rest⟩) =
          (readMatter? rest).map fun d ↦ ofParts? (before.parts ++ matterParts d) := by
        refine (findSome?_matterPattern hrest _).trans ?_
        rw [Match.append, List.append_nil]
      rw [Option.bind_some, Function.comp_apply, hbehind]
      cases hread : readMatter? rest with
      | none => simp [hread]
      | some d =>
          have hfound := hplace d.severity d.code d.message
          rw [← eq_plain_of_readMatter? hread] at hfound
          simp [hread, hfound]

/-- Behind the name of a file, the pattern is found to fit what can be read there. -/
theorem findSome?_afterFile {cs start : List Char} (hcs : '\n' ∉ cs) {before : Match Part}
    (hbefore : before.parts = [(.file, start.reverse)]) :
    (((Pattern.optional positionPattern).seq (.text [':', ' '])).attempts cs).findSome?
      (foundBehind ∘ before.append) = (readAfterFile? start cs).map some := by
  rw [Pattern.findSome?_seq, Pattern.findSome?_optional, readAfterFile?, Option.orElse_eq_orElse,
    Option.orElse_eq_or, Option.map_or]
  congr 1
  · cases hposition : readPosition? cs with
    | none =>
        rw [attempts_positionPattern hposition]
        rfl
    | some read =>
        obtain ⟨line?, column?, rest⟩ := read
        obtain ⟨_, ⟨line, column, hline, hcolumn, rfl⟩, rfl⟩ :=
          isPosition_of_readPosition? hposition
        rw [readPosition?_positioned hline hcolumn] at hposition
        cases hposition
        rw [findSome?_positionPattern _ hline hcolumn]
        dsimp only
        rw [Match.comp_append, findSome?_colon (fun hmem ↦ hcs (List.mem_append_right _ hmem))
          fun d ↦ inFileReversed start { d with line := number? line, column := number? column }]
        · rfl
        · intro severity code message
          rw [Match.append, hbefore, ofParts?_matterParts _ rfl rfl rfl]
          rfl
  · dsimp only
    rw [Match.comp_append, findSome?_colon hcs (inFileReversed start)]
    intro severity code message
    rw [Match.append, hbefore, ofParts?_matterParts _ rfl rfl rfl]
    rfl

/-- The pattern is found to fit with the shortest file name that can be read. -/
theorem findSome?_fileFrom {cs : List Char} (hcs : '\n' ∉ cs) (start : List Char)
    {k : Match Part → Option (Option Diagnostic)}
    (hk : ∀ taken rest, '\n' ∉ rest →
      k ⟨taken, [], rest⟩ = (readAfterFile? (taken.reverse ++ start) rest).map some) :
    ((Pattern.oneOrFew staysInLine).attempts cs).findSome? k = (readInFile? start cs).map some := by
  induction cs generalizing start k with
  | nil => rfl
  | cons c cs ih =>
      rw [List.mem_cons, not_or] at hcs
      have hmore (taken rest : List Char) (hrest : '\n' ∉ rest) : k ⟨c :: taken, [], rest⟩ =
          (readAfterFile? (taken.reverse ++ c :: start) rest).map some := by
        simpa using hk (c :: taken) rest hrest
      rw [Pattern.findSome?_oneOrFew k (decide_eq_true (Ne.symm hcs.1)), hk [c] cs hcs.2,
        ih hcs.2 (c :: start) hmore, readInFile?, List.reverse_singleton, List.singleton_append]
      cases readAfterFile? (c :: start) cs <;> rfl

theorem findSome?_placePattern {cs : List Char} (hcs : '\n' ∉ cs) :
    (placePattern.attempts cs).findSome? foundBehind = (readInFile? [] cs).map some := by
  rw [placePattern, Pattern.findSome?_seq, Pattern.findSome?_part]
  refine findSome?_fileFrom hcs [] fun taken rest hrest ↦ ?_
  exact findSome?_afterFile hrest (by simp)

theorem findSome?_found (ms : List (Match Part)) :
    ms.findSome? found = (ms.find? (·.rest.isEmpty)).map fun m ↦ ofParts? m.parts := by
  induction ms with
  | nil => rfl
  | cons m ms ih =>
      rw [Pattern.findSome?_cons, List.find?_cons, ih, found]
      cases m.rest <;> rfl

theorem findSome?_linePattern {cs : List Char} (hcs : '\n' ∉ cs) :
    (linePattern.attempts cs).findSome? found =
      (readInFile? [] cs <|> readMatter? cs).map some := by
  have hmatter : (matterPattern.attempts cs).findSome? (found ∘ Match.append ⟨[], [], cs⟩) =
      (readMatter? cs).map some := by
    rw [findSome?_matterPattern hcs]
    cases hread : readMatter? cs with
    | none => rfl
    | some d =>
        rw [Option.map_some, ofParts?_matterParts _ rfl rfl rfl]
        conv_rhs => rw [eq_plain_of_readMatter? hread]
        rfl
  rw [linePattern, Pattern.findSome?_seq, Pattern.findSome?_optional, hmatter,
    Option.orElse_eq_orElse, Option.orElse_eq_or, Option.map_or, ← findSome?_placePattern hcs]
  rfl

theorem takesOnly_linePattern : linePattern.TakesOnly (· ≠ '\n') := by
  have htext {expected : List Char} (h : '\n' ∉ expected) :
      (Pattern.text expected : Pattern Part).TakesOnly (· ≠ '\n') :=
    fun c hc hnewline ↦ h (hnewline ▸ hc)
  have hrun {p : Char → Bool} (h : p '\n' = false) :
      (Pattern.oneOrMore p : Pattern Part).TakesOnly (· ≠ '\n') := by
    have hne (c : Char) (hc : p c = true) : c ≠ '\n' := by
      rintro rfl
      rw [h] at hc
      cases hc
    exact ⟨hne, hne⟩
  have hline : (Pattern.oneOrMore staysInLine : Pattern Part).TakesOnly (· ≠ '\n') := hrun rfl
  have hdigits : (Pattern.oneOrMore isPositionDigit : Pattern Part).TakesOnly (· ≠ '\n') :=
    hrun (by decide)
  have hposition : positionPattern.TakesOnly (· ≠ '\n') :=
    ⟨htext (by decide), hdigits, htext (by decide), hdigits, htext (by decide)⟩
  have hplace : placePattern.TakesOnly (· ≠ '\n') :=
    ⟨hline, ⟨hposition, htext nofun⟩, htext (by decide)⟩
  have hseverity : severityPattern.TakesOnly (· ≠ '\n') :=
    ⟨htext (by decide), htext (by decide), htext (by decide)⟩
  have hmatter : matterPattern.TakesOnly (· ≠ '\n') :=
    ⟨hseverity, htext (by decide), hrun (by decide), htext (by decide), hline.2⟩
  exact ⟨⟨hplace, htext nofun⟩, hmatter⟩

/-- Reading a line comes to what the pattern fits first. -/
theorem ofLine?_eq_first (line : String) :
    ofLine? line = (linePattern.first? (trimRight line.toList)).bind fun m ↦ ofParts? m.parts := by
  have hjoin : (linePattern.first? (trimRight line.toList)).bind (fun m ↦ ofParts? m.parts) =
      ((linePattern.attempts (trimRight line.toList)).findSome? found).join := by
    rw [findSome?_found, Pattern.first?]
    cases (linePattern.attempts (trimRight line.toList)).find? (·.rest.isEmpty) <;> rfl
  rw [ofLine?, readTrimmed?, hjoin]
  generalize trimRight line.toList = cs
  split
  · next hline =>
    rw [List.findSome?_eq_none_iff.mpr]
    · rfl
    · intro m hm
      obtain ⟨hfits, rfl⟩ := Pattern.mem_attempts.mp hm
      refine if_neg fun hrest ↦ ?_
      have hmem : '\n' ∈ m.taken := by simpa [hrest] using hline
      exact hfits.forall_mem takesOnly_linePattern _ hmem rfl
  · next hline =>
    rw [findSome?_linePattern (by simpa using hline)]
    cases readInFile? [] cs <|> readMatter? cs <;> rfl

/-! ## Diagnostics that are got back from their lines -/

/-- Whether a file name stands on one line and has no blank behind a colon. -/
structure IsTidyName (name : List Char) : Prop where
  ne_nil : name ≠ []
  one_line : '\n' ∉ name
  no_colon : ¬ [':', ' '] <:+: name

theorem IsTidyName.isFileName {name : List Char} (h : IsTidyName name) : IsFileName name where
  ne_nil := h.ne_nil
  one_line := h.one_line
  not_announces := by
    rintro ⟨severity, hannounced⟩
    exact h.no_colon ((List.prefix_append [':', ' '] _).isInfix.trans hannounced)

/-- What stands between a place and a message. -/
def heading (severity : Severity) (code : List Char) : List Char :=
  ':' :: ' ' :: (severity.name.toList ++ ' ' :: (code ++ [':', ' ']))

/-- Whether the place of a diagnostic with a message is got back from its line. -/
inductive IsTidyPlace (message : List Char) :
    Option String → Option UInt32 → Option UInt32 → Prop
  | located {file : String} (line column : UInt32) (hfile : IsTidyName file.toList) :
      IsTidyPlace message (some file) (some line) (some column)
  | inFile {file : String} (hfile : IsTidyName file.toList)
      (hposition : ∀ p, p <:+ file.toList → ¬ IsPosition p) :
      IsTidyPlace message (some file) none none
  | nowhere (hmessage : ∀ severity code, IsCode code →
      ¬ heading severity code <:+: ':' :: ' ' :: message) :
      IsTidyPlace message none none none

/-- Whether a diagnostic is got back from its line. -/
structure IsTidy (d : Diagnostic) : Prop where
  code : IsCode d.code.toList
  message_ne_nil : d.message.toList ≠ []
  one_line : '\n' ∉ d.message.toList
  solid : ∀ c ∈ d.message.toList.getLast?, isBlank c = false
  place : IsTidyPlace d.message.toList d.file d.line d.column

/-- Where no heading stands, no matter does. -/
theorem not_holdsMatter_of_heading {cs : List Char}
    (h : ∀ severity code, IsCode code → ¬ heading severity code <:+: cs) : ¬ HoldsMatter cs := by
  rintro ⟨before, _, ⟨severity, code, message, hcode, rfl⟩, rfl⟩
  refine h severity code hcode ⟨before, message, ?_⟩
  simp [heading, matter]

theorem IsTidy.legible {d : Diagnostic} (h : d.IsTidy) : d.Legible where
  code := h.code
  one_line := h.one_line
  solid := by
    have hlast := List.getLast?_eq_some_getLast h.message_ne_nil
    exact ⟨_, hlast, h.solid _ hlast⟩
  place := by
    obtain ⟨file, line, column, severity, code, message⟩ := d
    cases h.place with
    | located line column hfile => exact .located line column hfile.isFileName
    | inFile hfile hposition => exact .inFile hfile.isFileName hposition
    | nowhere hmessage => exact .nowhere (not_holdsMatter_of_heading hmessage)

/-- A line shows the diagnostic that the parts of the first match of the pattern make, and tidy
diagnostics are got back from their lines. -/
theorem ofLine?_pattern_text :
    (∀ line : String, ofLine? line =
      (linePattern.first? (trimRight line.toList)).bind fun m ↦ ofParts? m.parts) ∧
    ∀ d : Diagnostic, d.IsTidy → ofLine? d.text = some d :=
  ⟨ofLine?_eq_first, fun _ h ↦ h.legible.ofLine?_text⟩

/-- A message that shows a diagnostic itself, at a file whose name ends in a position. -/
theorem ofLine?_pattern_text_nested :
    let d : Diagnostic :=
      ⟨some "a.ts(1,2)", some 3, some 4, .error, "TS1", "b.ts: warning TS2: c"⟩
    d.IsTidy ∧ ofLine? d.text = some d := by
  intro d
  have hcolon : ':' ∉ "a.ts(1,2)".toList := by decide
  have hname : IsTidyName "a.ts(1,2)".toList :=
    ⟨by decide, by decide, fun h ↦ hcolon (h.subset (.head _))⟩
  have hlast : d.message.toList.getLast? = some 'c' := by decide
  have hsolid : ∀ c ∈ d.message.toList.getLast?, isBlank c = false := by
    rw [hlast]
    rintro _ ⟨⟩
    rfl
  have htidy : d.IsTidy := ⟨by decide, by decide, by decide, hsolid, .located 3 4 hname⟩
  exact ⟨htidy, ofLine?_pattern_text.2 d htidy⟩

end PipedCompiler.Diagnostic
