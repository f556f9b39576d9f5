import PipedCompiler.Language.Emitted
import PipedCompiler.Proofs.Language.First
import PipedCompiler.Proofs.Language.Grammar
import PipedCompiler.Proofs.Text.Runs

/-!
# Cutting written tokens

A token that was cut out of a text is cut out again where it is written before something that does
not go on with it.
-/

namespace PipedCompiler.Language

open PipedCompiler.Text

/-! ## Tokens as text -/

/-- How a token is written. -/
def Token.chars : Token → List Char
  | .ident text => text.toList
  | .number text => text.toList
  | .str value => literal value
  | .keyword word => word.text.toList
  | .assign op => op.text.toList
  | .operator op => op.text.toList
  | .leftParen => ['(']
  | .rightParen => [')']
  | .comma => [',']
  | .semicolon => [';']

/-- Whether a text is a single word. -/
inductive IsWord : List Char → Prop
  | intro {c : Char} {cs : List Char} (hblank : isBlank c = false) (hdigit : c.isDigit = false)
      (hstarts : startsWord c = true) (hcontinues : ∀ d ∈ cs, continuesWord d = true) :
      IsWord (c :: cs)

/-- Whether a text is a single number. -/
inductive IsNumeral : List Char → Prop
  | whole {c : Char} {cs : List Char} (hblank : isBlank c = false) (hdigit : c.isDigit = true)
      (hcs : ∀ d ∈ cs, d.isDigit = true) : IsNumeral (c :: cs)
  | fraction {c : Char} {cs ds : List Char} (hblank : isBlank c = false) (hdigit : c.isDigit = true)
      (hcs : ∀ d ∈ cs, d.isDigit = true) (hds : ∀ d ∈ ds, d.isDigit = true) :
      IsNumeral (c :: (cs ++ '.' :: ds))

/-- Whether a text that can be read may have this token. -/
def Token.Readable : Token → Prop
  | .ident text => IsWord text.toList ∧ Keyword.ofText? text = none ∧
    (⟨.token (.ident text), text.toList⟩ : Piece).isUnreadable = false
  | .number text => IsNumeral text.toList
  | _ => True

/-! ## What comes out of a text -/

/-- Only a single character cannot be read. -/
theorem Piece.isUnreadable_cons_cons (kind : PieceKind) (c d : Char) (text : List Char) :
    Piece.isUnreadable ⟨kind, c :: d :: text⟩ = false := by
  cases kind with
  | token t => cases t <;> rfl
  | _ => rfl

theorem isNumeral_numberRest {c : Char} {cs : List Char} (hblank : isBlank c = false)
    (hdigit : c.isDigit = true) :
    IsNumeral (c :: (numberRest cs).1) := by
  have hall (cs : List Char) : ∀ d ∈ cs.takeWhile Char.isDigit, d.isDigit = true :=
    fun d hd ↦ List.mem_takeWhile_imp hd
  unfold numberRest
  split
  · exact .fraction hblank hdigit (hall cs) (hall _)
  · exact .whole hblank hdigit (hall cs)

/-- The tokens of a text that can be read are readable. -/
theorem Piece.First.readable {c : Char} {cs rest text : List Char} {t : Token}
    (h : Piece.First c cs ⟨.token t, text⟩ rest)
    (hreadable : (⟨.token t, text⟩ : Piece).isUnreadable = false) : t.Readable := by
  cases h with
  | number hblank hdigit =>
      rw [Token.Readable, String.toList_ofList]
      exact isNumeral_numberRest hblank hdigit
  | word hblank hdigit hstarts =>
      unfold wordToken at hreadable ⊢
      split at hreadable
      · exact trivial
      · next hword =>
        rw [Token.Readable, String.toList_ofList]
        exact ⟨.intro hblank hdigit hstarts fun d hd ↦ List.mem_takeWhile_imp hd, hword, hreadable⟩
  | mark hmark =>
      have hall : ∀ m ∈ marks, m.2.Readable := by simp [marks, Token.Readable]
      exact hall _ hmark
  | string | assign | operator => exact trivial

/-! ## Cutting off -/

section CutOff

variable {c : Char} {cs rest : List Char}

theorem numberRest_whole (hcs : ∀ d ∈ cs, d.isDigit = true)
    (hrest : ∀ d ∈ rest.head?, d.isDigit = false ∧ d ≠ '.') :
    numberRest (cs ++ rest) = (cs, rest) := by
  have hhead := fun d hd ↦ (hrest d hd).1
  rw [numberRest, takeWhile_append_of_head hcs hhead, dropWhile_append_of_head hcs hhead]
  split
  · exact absurd rfl (hrest _ rfl).2
  · rfl

theorem numberRest_fraction {ds : List Char} (hcs : ∀ d ∈ cs, d.isDigit = true)
    (hds : ∀ d ∈ ds, d.isDigit = true) (hrest : ∀ d ∈ rest.head?, d.isDigit = false) :
    numberRest (cs ++ '.' :: ds ++ rest) = (cs ++ '.' :: ds, rest) := by
  have hpoint : ∀ d ∈ ('.' :: (ds ++ rest)).head?, d.isDigit = false := by
    rintro _ ⟨⟩
    rfl
  rw [List.append_assoc, List.cons_append, numberRest, takeWhile_append_of_head hcs hpoint,
    dropWhile_append_of_head hcs hpoint]
  simp only [takeWhile_append_of_head hds hrest, dropWhile_append_of_head hds hrest]

theorem pieces_blank (hblank : isBlank c = true) :
    pieces (c :: rest) = ⟨.gap, [c]⟩ :: pieces rest := by
  rw [pieces_cons]
  unfold Piece.first
  simp [hblank]

theorem ne_of_holds {p : Char → Bool} {d : Char} (hd : p d = false) (hc : p c = true) : c ≠ d := by
  rintro rfl
  rw [hd] at hc
  cases hc

theorem pieces_word (h : IsWord cs) (hrest : ∀ d ∈ rest.head?, continuesWord d = false) :
    pieces (cs ++ rest) = ⟨.token (wordToken (String.ofList cs)), cs⟩ :: pieces rest := by
  cases h with
  | @intro c cs hblank hdigit hstarts hcontinues =>
      have hslash : c ≠ '/' := ne_of_holds (by decide +kernel) hstarts
      have hquote : c ≠ '"' := ne_of_holds (by decide +kernel) hstarts
      have hapostrophe : c ≠ '\x27' := ne_of_holds (by decide +kernel) hstarts
      rw [List.cons_append, pieces_cons]
      unfold Piece.first
      simp [hblank, hdigit, hstarts, hslash, hquote, hapostrophe,
        takeWhile_append_of_head hcontinues hrest, dropWhile_append_of_head hcontinues hrest]

theorem pieces_digit (hblank : isBlank c = false) (hdigit : c.isDigit = true)
    (hcs : numberRest (cs ++ rest) = (cs, rest)) :
    pieces (c :: cs ++ rest)
      = ⟨.token (.number (String.ofList (c :: cs))), c :: cs⟩ :: pieces rest := by
  have hslash : c ≠ '/' := ne_of_holds (by decide) hdigit
  have hquote : c ≠ '"' := ne_of_holds (by decide) hdigit
  have hapostrophe : c ≠ '\x27' := ne_of_holds (by decide) hdigit
  rw [List.cons_append, pieces_cons]
  unfold Piece.first
  simp [hblank, hdigit, hslash, hquote, hapostrophe, hcs]

theorem pieces_number (h : IsNumeral cs)
    (hrest : ∀ d ∈ rest.head?, d.isDigit = false ∧ d ≠ '.') :
    pieces (cs ++ rest) = ⟨.token (.number (String.ofList cs)), cs⟩ :: pieces rest := by
  cases h with
  | whole hblank hdigit hcs => exact pieces_digit hblank hdigit (numberRest_whole hcs hrest)
  | fraction hblank hdigit hcs hds =>
      exact pieces_digit hblank hdigit
        (numberRest_fraction hcs hds fun d hd ↦ (hrest d hd).1)

theorem stringRest_escape {value taken : List Char} {e : Char} (he : e ≠ '\n') :
    stringRest '"' value taken ('\\' :: e :: rest)
      = stringRest '"' (unescape e :: value) (e :: '\\' :: taken) rest := by
  rw [stringRest.eq_def]
  simp [he]

theorem stringRest_plain {value taken : List Char} (hline : c ≠ '\n') (hquote : c ≠ '"')
    (hbackslash : c ≠ '\\') :
    stringRest '"' value taken (c :: rest) = stringRest '"' (c :: value) (c :: taken) rest := by
  rw [stringRest.eq_def]
  simp [hline, hquote, hbackslash]

/-- What a character is written as in a string literal is read as that character. -/
theorem stringRest_escapeChar (value taken : List Char) (c : Char) (rest : List Char) :
    stringRest '"' value taken (escapeChar c ++ rest)
      = stringRest '"' (c :: value) ((escapeChar c).reverse ++ taken) rest := by
  unfold escapeChar
  split
  · exact stringRest_escape (by decide)
  · exact stringRest_escape (by decide)
  · exact stringRest_escape (by decide)
  · exact stringRest_escape (by decide)
  · exact stringRest_escape (by decide)
  · exact stringRest_escape (by decide)
  · next hquote hbackslash hline _ _ _ => exact stringRest_plain hline hquote hbackslash

theorem stringRest_flatMap_escapeChar (known taken value rest : List Char) :
    stringRest '"' known taken (value.flatMap escapeChar ++ '"' :: rest)
      = (some (known.reverse ++ value), taken.reverse ++ value.flatMap escapeChar ++ ['"'],
        rest) := by
  induction value generalizing taken known with
  | nil =>
      rw [List.flatMap_nil, List.nil_append, stringRest.eq_def]
      simp
  | cons c value ih =>
      rw [List.flatMap_cons, List.append_assoc, stringRest_escapeChar, ih]
      simp

theorem pieces_literal (value : String) (rest : List Char) :
    pieces (literal value ++ rest) = ⟨.token (.str value), literal value⟩ :: pieces rest := by
  have hblank : isBlank '"' = false := by decide
  have hstring := stringRest_flatMap_escapeChar [] ['"'] value.toList rest
  rw [literal, List.append_assoc, List.cons_append, List.singleton_append, pieces_cons]
  unfold Piece.first
  simp [hblank, hstring]

/-- The character of an operator. -/
theorem BinaryOp.text_toList (op : BinaryOp) :
    ∃ c, op.text.toList = [c] ∧ operator? c = some op ∧ isBlank c = false ∧ c.isDigit = false ∧
      startsWord c = false ∧ c ≠ '"' ∧ c ≠ '\x27' := by
  cases op with
  | add => exact ⟨'+', by decide +kernel⟩
  | sub => exact ⟨'-', by decide +kernel⟩
  | mul => exact ⟨'*', by decide +kernel⟩
  | div => exact ⟨'/', by decide +kernel⟩

theorem pieces_operator {op : BinaryOp} (hrest : ∀ d ∈ rest.head?, d ∉ ['=', '/', '*']) :
    pieces (op.text.toList ++ rest)
      = ⟨.token (.operator op), op.text.toList⟩ :: pieces rest := by
  obtain ⟨c, htext, hop, hblank, hdigit, hstarts, hquote, hapostrophe⟩ := op.text_toList
  have hline : rest.head? ≠ some '/' := fun h ↦ hrest '/' h (by decide)
  have hblock : rest.head? ≠ some '*' := fun h ↦ hrest '*' h (by decide)
  rw [htext, List.singleton_append, pieces_cons]
  unfold Piece.first
  simp only [hop, hblank, hdigit, hstarts, hquote, hapostrophe]
  cases rest with
  | nil => simp
  | cons d rest =>
      have hassign : d ≠ '=' := fun h ↦ hrest d rfl (by simp [h])
      simp at hline hblock
      simp [hline, hblock, hassign]

theorem pieces_assign (op : AssignOp) (rest : List Char) :
    pieces (op.text.toList ++ rest) = ⟨.token (.assign op), op.text.toList⟩ :: pieces rest := by
  cases op with
  | plain =>
      have hfirst : Piece.first '=' rest = (⟨.token (.assign .plain), ['=']⟩, rest) := rfl
      rw [show AssignOp.plain.text.toList = ['='] by decide, List.singleton_append, pieces_cons,
        hfirst]
  | compound op =>
      obtain ⟨c, htext, hop, hblank, hdigit, hstarts, hquote, hapostrophe⟩ := op.text_toList
      have hchars : (AssignOp.compound op).text.toList = [c, '='] := by
        rw [AssignOp.text, String.toList_append, htext]
        rfl
      rw [hchars, List.cons_append, List.singleton_append, pieces_cons]
      unfold Piece.first
      simp [hop, hblank, hdigit, hstarts, hquote, hapostrophe]

theorem IsWord.of_letters (hne : cs ≠ []) (hcs : ∀ d ∈ cs, isBlank d = false ∧
    d.isDigit = false ∧ startsWord d = true ∧ continuesWord d = true) : IsWord cs := by
  cases cs with
  | nil => exact absurd rfl hne
  | cons c cs =>
      obtain ⟨⟨hblank, hdigit, hstarts, -⟩, hcs⟩ := List.forall_mem_cons.mp hcs
      exact .intro hblank hdigit hstarts fun d hd ↦ (hcs d hd).2.2.2

theorem Keyword.isWord_text (word : Keyword) : IsWord word.text.toList := by
  cases word <;> exact .of_letters (by decide) (by decide +kernel)

theorem Keyword.wordToken_text (word : Keyword) : wordToken word.text = .keyword word := by
  cases word <;> decide

end CutOff

/-- Whether a token ends before this text. -/
def Token.EndsBefore (rest : List Char) : Token → Prop
  | .ident _ | .keyword _ => ∀ c ∈ rest.head?, continuesWord c = false
  | .number _ => ∀ c ∈ rest.head?, c.isDigit = false ∧ c ≠ '.'
  | .operator _ => ∀ c ∈ rest.head?, c ∉ ['=', '/', '*']
  | _ => True

/-- What is written for a token is cut off as that token, if it ends there. -/
theorem pieces_chars {t : Token} {rest : List Char} (ht : t.Readable) (hrest : t.EndsBefore rest) :
    pieces (t.chars ++ rest) = ⟨.token t, t.chars⟩ :: pieces rest ∧
      (⟨.token t, t.chars⟩ : Piece).isUnreadable = false := by
  cases t with
  | ident text =>
      obtain ⟨hword, hkeyword, hreadable⟩ := ht
      refine ⟨?_, hreadable⟩
      rw [Token.chars, pieces_word hword hrest, String.ofList_toList, wordToken, hkeyword]
  | number text =>
      rw [Token.chars, pieces_number ht hrest, String.ofList_toList]
      exact ⟨rfl, rfl⟩
  | str value => exact ⟨pieces_literal value rest, rfl⟩
  | keyword word =>
      rw [Token.chars, pieces_word word.isWord_text hrest, String.ofList_toList,
        word.wordToken_text]
      exact ⟨rfl, rfl⟩
  | assign op => exact ⟨pieces_assign op rest, rfl⟩
  | operator op => exact ⟨pieces_operator hrest, rfl⟩
  | leftParen => exact ⟨pieces_cons _ _, rfl⟩
  | rightParen => exact ⟨pieces_cons _ _, rfl⟩
  | comma => exact ⟨pieces_cons _ _, rfl⟩
  | semicolon => exact ⟨pieces_cons _ _, rfl⟩

/-! ## The lexemes of a text -/

/-- A lexeme that is added comes from a piece. -/
theorem Scan.exists_piece_of_mem_lexemes {l : Lexeme} {s : Scan} {ps : List Piece}
    (h : l ∈ (ps.foldl Scan.add s).lexemes) :
    l ∈ s.lexemes ∨ ∃ p ∈ ps, p.kind = .token l.token := by
  induction ps generalizing s with
  | nil => exact .inl h
  | cons p ps ih =>
      rcases ih h with hadded | ⟨q, hq, hkind⟩
      · unfold Scan.add at hadded
        split at hadded
        · next t hkind =>
          rcases List.mem_cons.mp hadded with rfl | hl
          · exact .inr ⟨p, List.mem_cons_self, hkind⟩
          · exact .inl hl
        · exact .inl hadded
        · exact .inl hadded
      · exact .inr ⟨q, List.mem_cons_of_mem _ hq, hkind⟩

theorem Scan.ofText?_eq_some_iff {cs : List Char} {scan : Scan} :
    Scan.ofText? cs = some scan ↔
      (∀ p ∈ pieces cs, p.isUnreadable = false) ∧ Scan.ofPieces (pieces cs) = scan := by
  simp [Scan.ofText?]

/-- The tokens of a text that can be read are readable. -/
theorem Scan.readable_of_ofText? {cs : List Char} {scan : Scan} (h : Scan.ofText? cs = some scan) :
    ∀ l ∈ scan.lexemes, l.token.Readable := by
  obtain ⟨hall, rfl⟩ := Scan.ofText?_eq_some_iff.mp h
  intro l hl
  have hl' : l ∈ ((pieces cs).foldl Scan.add Scan.empty).lexemes := List.mem_reverse.mp hl
  obtain hnone | ⟨⟨kind, text⟩, hp, hkind⟩ := Scan.exists_piece_of_mem_lexemes hl'
  · cases hnone
  · obtain ⟨c, ds, rest, hfirst⟩ := exists_first_of_mem_pieces hp
    obtain rfl : kind = .token l.token := hkind
    exact (Piece.First.of_eq hfirst).readable (hall _ hp)

end PipedCompiler.Language
