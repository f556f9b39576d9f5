import PipedCompiler.Proofs.Language.LineBreaks
import PipedCompiler.Proofs.Text.Boundary

/-!
# Words and numbers as slices

The text of a word and of a number is sliced out of the whole text.  The end of the slice is moved
behind each further character that is taken, but its first place is one byte behind the start: a
word of a single character that takes several bytes is cut inside that character.  No other slice
goes wrong, and what is sliced out for a name is all that goes on with it.
-/

namespace PipedCompiler.Language

open PipedCompiler.Text

/-! ## Where a text is cut -/

/-- Where a slice ends if it ends at `cut` so far, its further characters start at `place`, and the
end is put `width` bytes behind the start of each. -/
def cutFrom (width : Char → Nat) : (place cut : Nat) → List Char → Nat
  | _, cut, [] => cut
  | place, _, c :: cs => cutFrom width (place + c.utf8Size) (place + width c) cs

/-- How many bytes a further character counts for in a token that is sliced out of its text. -/
def Token.sliceWidth? : Token → Option (Char → Nat)
  | .number _ => some fun _ ↦ 1
  | .ident _ | .keyword _ => some Char.utf8Size
  | _ => none

/-- Whether a text is sliced at these two places when it is read, for this piece. -/
inductive Slices (cs : List Char) : (start stop : Nat) → Piece → Prop
  | intro {before after : List Piece} {t : Token} {width : Char → Nat} {c : Char} {more : List Char}
      {start : Nat} (hpieces : pieces cs = before ++ ⟨.token t, c :: more⟩ :: after)
      (hwidth : t.sliceWidth? = some width)
      (hstart : byteLength (before.flatMap Piece.text) = start) :
      Slices cs start (cutFrom width (start + c.utf8Size) (start + 1) more) ⟨.token t, c :: more⟩

/-- Whether a word is all that goes on as a word from a place on. -/
def WordAt (cs : List Char) (offset : Nat) (word : String) : Prop :=
  ∃ before after, cs = before ++ after ∧ byteLength before = offset ∧
    word.toList = after.takeWhile continuesWord ∧ word.toList ≠ []

section Slices

variable {c : Char} {cs rest text : List Char} {t : Token} {width : Char → Nat}

/-- Only the first place of the end can differ from the end of the characters. -/
theorem cutFrom_eq (h : ∀ d ∈ cs, width d = d.utf8Size) (place cut : Nat) :
    cutFrom width place cut cs = if cs = [] then cut else place + byteLength cs := by
  induction cs generalizing place cut with
  | nil => rfl
  | cons c cs ih =>
      rw [List.forall_mem_cons] at h
      rw [cutFrom, ih h.2, h.1, if_neg (List.cons_ne_nil c cs), byteLength_cons]
      split
      · next hnil => rw [hnil]; rfl
      · rw [Nat.add_assoc]

theorem utf8Size_of_isDigit (h : c.isDigit = true) : c.utf8Size = 1 := by
  rw [Char.isDigit, Bool.and_eq_true, decide_eq_true_eq, decide_eq_true_eq] at h
  exact Char.utf8Size_eq_one_iff.mpr (UInt32.le_trans h.2 (by decide))

theorem utf8Size_of_isNumeral (h : IsNumeral text) : ∀ d ∈ text, d.utf8Size = 1 := by
  have hdigits {ds : List Char} (hds : ∀ d ∈ ds, d.isDigit = true) : ∀ d ∈ ds, d.utf8Size = 1 :=
    fun d hd ↦ utf8Size_of_isDigit (hds d hd)
  cases h with
  | whole hblank hdigit hcs =>
      exact List.forall_mem_cons.mpr ⟨utf8Size_of_isDigit hdigit, hdigits hcs⟩
  | fraction hblank hdigit hcs hds =>
      rw [List.forall_mem_cons, List.forall_mem_append, List.forall_mem_cons]
      exact ⟨utf8Size_of_isDigit hdigit, hdigits hcs, rfl, hdigits hds⟩

/-- A word of a single character is a name. -/
theorem wordToken_singleton (c : Char) :
    wordToken (String.ofList [c]) = .ident (String.ofList [c]) := by
  unfold wordToken
  split
  · next k hkeyword =>
    rw [Keyword.ofText?] at hkeyword
    have htext := List.find?_some hkeyword
    have hlength := congrArg (·.toList.length) (beq_iff_eq.mp htext)
    cases k <;> simp [Keyword.text] at hlength
  · rfl

theorem sliceWidth?_wordToken (word : String) :
    (wordToken word).sliceWidth? = some Char.utf8Size := by
  unfold wordToken
  split <;> rfl

/-- Where the further characters of what is sliced out of a text end, the slice ends, and it can be
read if it does not end before its first character does. -/
theorem Piece.First.slice (h : Piece.First c cs ⟨.token t, text⟩ rest)
    (hwidth : t.sliceWidth? = some width) :
    ∃ more, text = c :: more ∧ (∀ d ∈ more, width d = d.utf8Size) ∧
      ((⟨.token t, text⟩ : Piece).isUnreadable = false ↔ (more = [] → c.utf8Size = 1)) := by
  cases h with
  | number hblank hdigit =>
      have hnumeral : IsNumeral (c :: (numberRest cs).1) := isNumeral_numberRest hblank hdigit
      obtain ⟨hc, hmore⟩ := List.forall_mem_cons.mp (utf8Size_of_isNumeral hnumeral)
      obtain rfl := Option.some.inj hwidth
      exact ⟨_, rfl, fun d hd ↦ (hmore d hd).symm, iff_of_true rfl fun _ ↦ hc⟩
  | word hblank hdigit hstarts =>
      obtain rfl := Option.some.inj ((sliceWidth?_wordToken _).symm.trans hwidth)
      refine ⟨_, rfl, fun _ _ ↦ rfl, ?_⟩
      cases cs.takeWhile continuesWord with
      | nil =>
          rw [wordToken_singleton]
          simp [Piece.isUnreadable]
      | cons d ds => exact iff_of_true (Piece.isUnreadable_cons_cons _ c d ds) nofun
  | mark hmark =>
      have hall : ∀ m ∈ marks, m.2.sliceWidth? = none := by simp [marks, Token.sliceWidth?]
      cases (hall _ hmark).symm.trans hwidth
  | string | assign | operator => cases hwidth

theorem continuesWord_of_startsWord (h : startsWord c = true) : continuesWord c = true := by
  rw [startsWord, Bool.or_assoc, Bool.or_eq_true] at h
  rw [continuesWord, Bool.or_assoc, Bool.or_eq_true]
  exact h.imp_left isLetterOrNumber_of_isLetter

theorem eq_ofList_of_wordToken {name word : String} (h : wordToken word = .ident name) :
    name = word := by
  unfold wordToken at h
  split at h
  · cases h
  · exact (Token.ident.inj h).symm

/-- A name is all that goes on with it. -/
theorem Piece.First.name {name : String} {kind : PieceKind} (h : Piece.First c cs ⟨kind, text⟩ rest)
    (hkind : kind = .token (.ident name)) :
    name.toList = (c :: cs).takeWhile continuesWord ∧ name.toList = text := by
  cases h with
  | word hblank hdigit hstarts =>
      rw [eq_ofList_of_wordToken (PieceKind.token.inj hkind), String.toList_ofList,
        List.takeWhile_cons_of_pos (continuesWord_of_startsWord hstarts)]
      exact ⟨rfl, rfl⟩
  | mark hmark =>
      have hall : ∀ m ∈ marks, ∀ name, m.2 ≠ .ident name := by simp [marks]
      exact absurd (PieceKind.token.inj hkind) (hall _ hmark name)
  | _ => cases hkind

theorem exists_piece_of_mem_lexemesFrom {start : Nat} {newline : Bool} {ps : List Piece}
    {l : Lexeme} (h : l ∈ lexemesFrom start newline ps) :
    ∃ before p after, ps = before ++ p :: after ∧ p.kind = .token l.token ∧
      start + byteLength (before.flatMap Piece.text) = l.offset := by
  induction ps generalizing start newline with
  | nil => cases h
  | cons p ps ih =>
      -- the piece itself, or one behind it
      have hlater {newline : Bool} (h : l ∈ lexemesFrom (start + byteLength p.text) newline ps) :
          ∃ before q after, p :: ps = before ++ q :: after ∧ q.kind = .token l.token ∧
            start + byteLength (before.flatMap Piece.text) = l.offset := by
        obtain ⟨before, q, after, rfl, hkind, hoffset⟩ := ih h
        refine ⟨p :: before, q, after, rfl, hkind, ?_⟩
        rw [List.flatMap_cons, byteLength_append, ← Nat.add_assoc, hoffset]
      rw [lexemesFrom] at h
      split at h
      · next t hkind =>
        rcases List.mem_cons.mp h with rfl | h
        · exact ⟨[], p, ps, rfl, hkind, rfl⟩
        · exact hlater h
      · exact hlater h

theorem Slices.mem {start stop : Nat} {p : Piece} (h : Slices cs start stop p) :
    p ∈ pieces cs := by
  cases h with
  | intro hpieces hwidth hstart =>
      rw [hpieces]
      exact List.mem_append_right _ List.mem_cons_self

/-- A slice starts on a boundary, and stops on one just if its word can be read, which is then what
is sliced out. -/
theorem Slices.isBoundary {start stop : Nat} {p : Piece} (h : Slices cs start stop p) :
    IsBoundary cs start ∧ (IsBoundary cs stop ↔ p.isUnreadable = false) ∧
      (p.isUnreadable = false → stop = start + byteLength p.text) := by
  cases h with
  | @intro before after t width c more start hpieces hwidth hstart =>
      obtain ⟨c', ds, hcs, hfirst⟩ := first_of_pieces_eq hpieces
      obtain ⟨more', hmore, hsizes, hreadable⟩ := (Piece.First.of_eq hfirst).slice hwidth
      obtain ⟨rfl, rfl⟩ := List.cons.inj hmore
      rw [← Piece.first_append c ds, hfirst] at hcs
      have hcut := cutFrom_eq hsizes (start + c.utf8Size) (start + 1)
      have hstop (h : more = [] → c.utf8Size = 1) :
          cutFrom width (start + c.utf8Size) (start + 1) more = start + byteLength (c :: more) := by
        rw [hcut, byteLength_cons]
        split
        · next hnil =>
          rw [h hnil, hnil]
          rfl
        · rw [Nat.add_assoc]
      refine ⟨?_, ⟨fun hboundary ↦ ?_, fun h ↦ ?_⟩, fun h ↦ hstop (hreadable.mp h)⟩
      · rw [hcs, ← hstart]
        exact isBoundary_byteLength _ _
      · rw [hreadable]
        rintro rfl
        by_contra hsize
        have hpos := c.utf8Size_pos
        rw [cutFrom] at hboundary
        exact not_isBoundary_inside (by omega) (by omega) (hcs ▸ hboundary)
      · rw [hstop (hreadable.mp h), hcs, ← hstart, ← byteLength_append, ← List.append_assoc]
        exact isBoundary_byteLength _ _

/-- A word that cannot be read is a name of one character, in several bytes. -/
theorem Piece.isUnreadable_iff {p : Piece} (h : p ∈ pieces cs) :
    p.isUnreadable = true ↔
      ∃ c, c.utf8Size ≠ 1 ∧ p = ⟨.token (.ident (String.singleton c)), [c]⟩ := by
  constructor
  · intro hunreadable
    obtain ⟨kind, text⟩ := p
    unfold Piece.isUnreadable at hunreadable
    split at hunreadable
    · next name c hkind htext =>
      obtain rfl : kind = .token (.ident name) := hkind
      obtain rfl : text = [c] := htext
      obtain ⟨d, ds, rest, hfirst⟩ := exists_first_of_mem_pieces h
      have htext := ((Piece.First.of_eq hfirst).name rfl).2
      have hname : name = String.singleton c :=
        String.toList_inj.mp (htext.trans (String.toList_singleton c).symm)
      exact ⟨c, by simpa using hunreadable, by rw [hname]⟩
    · cases hunreadable
  · rintro ⟨c, hsize, rfl⟩
    simpa [Piece.isUnreadable] using hsize

theorem exists_slice_of_unreadable {p : Piece} (h : p ∈ pieces cs)
    (hunreadable : p.isUnreadable = true) : ∃ start stop, Slices cs start stop p := by
  obtain ⟨c, hsize, rfl⟩ := (Piece.isUnreadable_iff h).mp hunreadable
  obtain ⟨before, after, hpieces⟩ := List.append_of_mem h
  exact ⟨_, _, .intro hpieces rfl rfl⟩

theorem Scan.isSome_ofText?_iff :
    (Scan.ofText? cs).isSome = true ↔ ∀ p ∈ pieces cs, p.isUnreadable = false := by
  simp [Scan.ofText?]

theorem Scan.isSome_ofText?_iff_slices :
    (Scan.ofText? cs).isSome = true ↔
      ∀ start stop p, Slices cs start stop p → IsBoundary cs start ∧ IsBoundary cs stop := by
  rw [Scan.isSome_ofText?_iff]
  constructor
  · intro hreadable start stop p hslice
    obtain ⟨hstart, hstop, -⟩ := hslice.isBoundary
    exact ⟨hstart, hstop.mpr (hreadable p hslice.mem)⟩
  · intro hslices p hp
    by_contra hunreadable
    rw [Bool.not_eq_false] at hunreadable
    obtain ⟨start, stop, hslice⟩ := exists_slice_of_unreadable hp hunreadable
    have hreadable := hslice.isBoundary.2.1.mp (hslices start stop p hslice).2
    rw [hunreadable] at hreadable
    cases hreadable

theorem Scan.ofText?_eq_none_iff :
    Scan.ofText? cs = none ↔
      ∃ c, c.utf8Size ≠ 1 ∧ ⟨.token (.ident (String.singleton c)), [c]⟩ ∈ pieces cs := by
  have hnone : Scan.ofText? cs = none ↔ ∃ p ∈ pieces cs, p.isUnreadable = true := by
    simp [Scan.ofText?]
  rw [hnone]
  constructor
  · rintro ⟨p, hp, hunreadable⟩
    obtain ⟨c, hsize, rfl⟩ := (Piece.isUnreadable_iff hp).mp hunreadable
    exact ⟨c, hsize, hp⟩
  · rintro ⟨c, hsize, hp⟩
    exact ⟨_, hp, (Piece.isUnreadable_iff hp).mpr ⟨c, hsize, rfl⟩⟩

theorem Scan.wordAt_of_mem_lexemes {l : Lexeme} {name : String}
    (h : l ∈ (Scan.ofPieces (pieces cs)).lexemes) (hname : l.token = .ident name) :
    WordAt cs l.offset name := by
  rw [Scan.ofPieces_lexemes] at h
  obtain ⟨before, ⟨kind, text⟩, after, hpieces, hkind, hoffset⟩ := exists_piece_of_mem_lexemesFrom h
  obtain ⟨c, ds, hcs, hfirst⟩ := first_of_pieces_eq hpieces
  obtain ⟨hrun, htext⟩ := (Piece.First.of_eq hfirst).name (hkind.trans (congrArg _ hname))
  rw [Nat.zero_add] at hoffset
  have hmem : ⟨kind, text⟩ ∈ pieces cs := by
    rw [hpieces]
    exact List.mem_append_right _ List.mem_cons_self
  exact ⟨_, _, hcs, hoffset, hrun, htext ▸ text_ne_nil_of_mem_pieces hmem⟩

end Slices

/-- A text can be read just if it is only sliced between characters, which it is unless it has a
name of a single character that takes several bytes.  Then what is sliced out are the words and
numbers themselves, and each name is all that goes on as a word where it stands. -/
theorem Scan.ofText?_slices (cs : List Char) :
    ((Scan.ofText? cs).isSome = true ↔
        ∀ start stop p, Slices cs start stop p → IsBoundary cs start ∧ IsBoundary cs stop) ∧
      (Scan.ofText? cs = none ↔
        ∃ c, c.utf8Size ≠ 1 ∧ ⟨.token (.ident (String.singleton c)), [c]⟩ ∈ pieces cs) ∧
      ∀ scan, Scan.ofText? cs = some scan →
        (∀ start stop p, Slices cs start stop p → stop = start + byteLength p.text) ∧
          ∀ l ∈ scan.lexemes, ∀ name, l.token = .ident name → WordAt cs l.offset name := by
  refine ⟨Scan.isSome_ofText?_iff_slices, Scan.ofText?_eq_none_iff, fun scan hscan ↦ ?_⟩
  obtain ⟨hreadable, rfl⟩ := Scan.ofText?_eq_some_iff.mp hscan
  constructor
  · intro start stop p hslice
    exact hslice.isBoundary.2.2 (hreadable p hslice.mem)
  · intro l hl name hname
    exact Scan.wordAt_of_mem_lexemes hl hname

/-- Not every text can be read. -/
theorem Scan.ofText?_loneLetter :
    Scan.ofText? ['é'] = none ∧ ¬ ∀ cs, ∃ scan, Scan.ofText? cs = some scan := by
  have hnone : Scan.ofText? ['é'] = none := by decide +kernel
  refine ⟨hnone, fun h ↦ ?_⟩
  obtain ⟨scan, hscan⟩ := h ['é']
  cases hnone.symm.trans hscan

end PipedCompiler.Language
