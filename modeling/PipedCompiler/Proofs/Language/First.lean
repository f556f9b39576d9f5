import PipedCompiler.Language.Pieces

/-!
# The first piece of a text

What the first piece of a text can be, what it takes, and what the characters behind it are.
-/

namespace PipedCompiler.Language

open PipedCompiler.Text

/-- The marks of a single character, apart from the operators. -/
def marks : List (Char × Token) :=
  [('=', .assign .plain), ('(', .leftParen), (')', .rightParen), (',', .comma), (';', .semicolon)]

/-- Whether a character starts no token, no comment and no white space. -/
structure StartsNothing (c : Char) : Prop where
  blank : isBlank c = false
  digit : c.isDigit = false
  word : startsWord c = false
  mark : c ∉ ['"', '\x27', '+', '-', '*', '/', '=', '(', ')', ',', ';']

/-- What the first piece of a text can be, and what is left behind it. -/
inductive Piece.First : (c : Char) → (cs : List Char) → Piece → (rest : List Char) → Prop
  | blank {c : Char} {cs : List Char} (hblank : isBlank c = true) : First c cs ⟨.gap, [c]⟩ cs
  | lineComment {cs : List Char} :
      First '/' ('/' :: cs) ⟨.gap, '/' :: '/' :: cs.takeWhile (· ≠ '\n')⟩ (cs.dropWhile (· ≠ '\n'))
  | blockComment {cs text rest : List Char}
      (hbody : blockComment ['*', '/'] cs = (true, text, rest)) :
      First '/' ('*' :: cs) ⟨.gap, text⟩ rest
  | openComment {cs text rest : List Char}
      (hbody : blockComment ['*', '/'] cs = (false, text, rest)) :
      First '/' ('*' :: cs) ⟨.fault .unterminatedComment, text⟩ rest
  | string {c : Char} {cs value text rest : List Char} (hblank : isBlank c = false)
      (hquote : c = '"' ∨ c = '\x27') (hbody : stringRest c [] [c] cs = (some value, text, rest)) :
      First c cs ⟨.token (.str (String.ofList value)), text⟩ rest
  | openString {c : Char} {cs text rest : List Char} (hquote : c = '"' ∨ c = '\x27')
      (hbody : stringRest c [] [c] cs = (none, text, rest)) :
      First c cs ⟨.fault .unterminatedString, text⟩ rest
  | number {c : Char} {cs : List Char} (hblank : isBlank c = false) (hdigit : c.isDigit = true) :
      First c cs ⟨.token (.number (String.ofList (c :: (numberRest cs).1))), c :: (numberRest cs).1⟩
        (numberRest cs).2
  | word {c : Char} {cs : List Char} (hblank : isBlank c = false) (hdigit : c.isDigit = false)
      (hstarts : startsWord c = true) :
      First c cs ⟨.token (wordToken (String.ofList (c :: cs.takeWhile continuesWord))),
        c :: cs.takeWhile continuesWord⟩ (cs.dropWhile continuesWord)
  | assign {c : Char} {cs : List Char} {op : BinaryOp} (hop : operator? c = some op) :
      First c ('=' :: cs) ⟨.token (.assign (.compound op)), [c, '=']⟩ cs
  | operator {c : Char} {cs : List Char} {op : BinaryOp} (hop : operator? c = some op) :
      First c cs ⟨.token (.operator op), [c]⟩ cs
  | mark {c : Char} {cs : List Char} {t : Token} (hmark : (c, t) ∈ marks) :
      First c cs ⟨.token t, [c]⟩ cs
  | invalid {c : Char} {cs : List Char} (h : StartsNothing c) :
      First c cs ⟨.fault .invalidCharacter, [c]⟩ cs

theorem startsNothing_of_operator? {c : Char} (hblank : isBlank c = false)
    (hdigit : c.isDigit = false) (hword : startsWord c = false) (hoperator : operator? c = none)
    (hmark : c ∉ ['"', '\x27', '=', '(', ')', ',', ';']) : StartsNothing c := by
  refine ⟨hblank, hdigit, hword, fun hmem ↦ ?_⟩
  have hmem' : c ∈ ['+', '-', '*', '/'] ∨ c ∈ ['"', '\x27', '=', '(', ')', ',', ';'] := by
    grind
  rcases hmem' with h | h
  · have hall : ∀ d ∈ ['+', '-', '*', '/'], operator? d ≠ none := by decide
    exact hall c h hoperator
  · exact hmark h

/-- The first piece of a text is one of those. -/
theorem Piece.first_spec (c : Char) (cs : List Char) :
    Piece.First c cs (Piece.first c cs).1 (Piece.first c cs).2 := by
  unfold Piece.first
  split
  · next hblank => exact .blank hblank
  next hblank =>
  rw [Bool.not_eq_true] at hblank
  split
  · next hline =>
    obtain ⟨rfl, hhead⟩ : c = '/' ∧ cs.head? = some '/' := by simpa using hline
    obtain ⟨cs, rfl⟩ := List.head?_eq_some_iff.mp hhead
    simpa [Language.lineComment] using Piece.First.lineComment
  split
  · next hblock =>
    obtain ⟨rfl, hhead⟩ : c = '/' ∧ cs.head? = some '*' := by simpa using hblock
    obtain ⟨cs, rfl⟩ := List.head?_eq_some_iff.mp hhead
    rw [List.tail_cons]
    rcases hbody : Language.blockComment ['*', '/'] cs with ⟨_ | _, text, rest⟩
    · exact .openComment hbody
    · exact .blockComment hbody
  split
  · next hquote =>
    have hquote' : c = '"' ∨ c = '\x27' := by simpa using hquote
    rcases hbody : stringRest c [] [c] cs with ⟨_ | value, text, rest⟩
    · exact .openString hquote' hbody
    · exact .string hblank hquote' hbody
  next hquote =>
  split
  · next hdigit => exact .number hblank hdigit
  next hdigit =>
  rw [Bool.not_eq_true] at hdigit
  split
  · next hstarts => exact .word hblank hdigit hstarts
  next hstarts =>
  rw [Bool.not_eq_true] at hstarts
  split
  · exact .assign ‹operator? c = some _›
  · exact .operator ‹operator? c = some _›
  · split
    iterate 5 exact .mark (by decide)
    · next hassign hleft hright hcomma hsemicolon =>
      refine .invalid (startsNothing_of_operator? hblank hdigit hstarts ‹_› ?_)
      simp only [List.mem_cons, List.not_mem_nil, or_false, not_or]
      rw [Bool.or_eq_true, decide_eq_true_eq, decide_eq_true_eq, not_or] at hquote
      exact ⟨hquote.1, hquote.2, hassign, hleft, hright, hcomma, hsemicolon⟩

theorem Piece.First.of_eq {c : Char} {cs rest : List Char} {p : Piece}
    (h : Piece.first c cs = (p, rest)) : Piece.First c cs p rest := by
  have hfirst := Piece.first_spec c cs
  rwa [h] at hfirst

/-- A piece of a text is the first of what is left of the text there. -/
theorem first_of_pieces_eq {cs : List Char} {p : Piece} {before after : List Piece}
    (h : pieces cs = before ++ p :: after) :
    ∃ c ds, cs = before.flatMap Piece.text ++ c :: ds ∧
      Piece.first c ds = (p, after.flatMap Piece.text) := by
  induction before generalizing cs with
  | nil =>
      cases cs with
      | nil => cases pieces_nil.symm.trans h
      | cons c cs =>
          rw [pieces_cons] at h
          obtain ⟨rfl, hrest⟩ := List.cons.inj h
          refine ⟨c, cs, rfl, Prod.ext rfl ?_⟩
          rw [← hrest, flatMap_text_pieces]
  | cons q before ih =>
      cases cs with
      | nil => cases pieces_nil.symm.trans h
      | cons c cs =>
          rw [pieces_cons] at h
          obtain ⟨rfl, hrest⟩ := List.cons.inj h
          obtain ⟨d, ds, hds, hfirst⟩ := ih hrest
          refine ⟨d, ds, ?_, hfirst⟩
          rw [List.flatMap_cons, List.append_assoc, ← hds, Piece.first_append]

theorem exists_first_of_mem_pieces {cs : List Char} {p : Piece} (h : p ∈ pieces cs) :
    ∃ c ds rest, Piece.first c ds = (p, rest) := by
  obtain ⟨before, after, hpieces⟩ := List.append_of_mem h
  obtain ⟨c, ds, -, hfirst⟩ := first_of_pieces_eq hpieces
  exact ⟨c, ds, _, hfirst⟩

end PipedCompiler.Language
