import PipedCompiler.Language.Token
import PipedCompiler.Text.Blank
import PipedCompiler.Text.Numbers

/-!
# Cutting a text into pieces

A text is cut into tokens, gaps between them and faulty stretches, each as long as its kind allows.
Every piece takes at least one character (`Piece.first_text_ne_nil`) and the pieces together are
the text (`flatMap_text_pieces`).
-/

namespace PipedCompiler.Language

open PipedCompiler.Text

/-- What a stretch of text is. -/
inductive PieceKind where
  | token (t : Token)
  /-- White space or a comment. -/
  | gap
  | fault (f : LexicalFault)
  deriving Repr, DecidableEq

/-- A stretch of text. -/
structure Piece where
  kind : PieceKind
  text : List Char
  deriving Repr, DecidableEq

/-- Whether a word may start with the character. -/
def startsWord (c : Char) : Bool :=
  isLetter c || c == '_' || c == '$'

/-- Whether a word may go on with the character. -/
def continuesWord (c : Char) : Bool :=
  isLetterOrNumber c || c == '_' || c == '$'

/-- The token that a word is. -/
def wordToken (word : String) : Token :=
  match Keyword.ofText? word with
  | some k => .keyword k
  | none => .ident word

/-- The operator that a character spells. -/
def operator? (c : Char) : Option BinaryOp :=
  [.add, .sub, .mul, .div].find? (·.text == String.singleton c)

/-- The character that a backslash and `c` stand for in a string literal. -/
def unescape (c : Char) : Char :=
  match c with
  | 'n' => '\n'
  | 'r' => '\r'
  | 't' => '\t'
  | '0' => '\x00'
  | c => c

/-- The rest of a comment up to the end of its line, and what follows. -/
def lineComment (cs : List Char) : List Char × List Char :=
  (cs.takeWhile (· ≠ '\n'), cs.dropWhile (· ≠ '\n'))

/-- The rest of a block comment: whether it is closed, its characters, and what follows. -/
def blockComment (taken : List Char) : List Char → Bool × List Char × List Char
  | [] => (false, taken.reverse, [])
  | '*' :: '/' :: cs => (true, ('/' :: '*' :: taken).reverse, cs)
  | c :: cs => blockComment (c :: taken) cs

/-- The rest of a string literal: its value if it is closed, its characters, and what follows. -/
def stringRest (quote : Char) (value taken : List Char) :
    List Char → Option (List Char) × List Char × List Char
  | [] => (none, taken.reverse, [])
  | c :: cs =>
    if c = '\n' then (none, taken.reverse, c :: cs)
    else if c = quote then (some value.reverse, (c :: taken).reverse, cs)
    else if c = '\\' then
      match cs with
      | [] => (none, (c :: taken).reverse, [])
      | e :: cs =>
        if e = '\n' then (none, (c :: taken).reverse, e :: cs)
        else stringRest quote (unescape e :: value) (e :: c :: taken) cs
    else stringRest quote (c :: value) (c :: taken) cs

/-- The rest of a number, with at most one point, and what follows. -/
def numberRest (cs : List Char) : List Char × List Char :=
  let whole := cs.takeWhile Char.isDigit
  match cs.dropWhile Char.isDigit with
  | '.' :: more => (whole ++ '.' :: more.takeWhile Char.isDigit, more.dropWhile Char.isDigit)
  | more => (whole, more)

/-- The piece that starts with `c`, where `cs` follows, and what comes after it. -/
def Piece.first (c : Char) (cs : List Char) : Piece × List Char :=
  if isBlank c then (⟨.gap, [c]⟩, cs)
  else if c = '/' && cs.head? == some '/' then
    let body := lineComment cs
    (⟨.gap, c :: body.1⟩, body.2)
  else if c = '/' && cs.head? == some '*' then
    let body := blockComment ['*', '/'] cs.tail
    (⟨if body.1 then .gap else .fault .unterminatedComment, body.2.1⟩, body.2.2)
  else if c = '"' || c = '\x27' then
    let body := stringRest c [] [c] cs
    match body.1 with
    | some value => (⟨.token (.str (String.ofList value)), body.2.1⟩, body.2.2)
    | none => (⟨.fault .unterminatedString, body.2.1⟩, body.2.2)
  else if c.isDigit then
    let body := numberRest cs
    (⟨.token (.number (String.ofList (c :: body.1))), c :: body.1⟩, body.2)
  else if startsWord c then
    let word := c :: cs.takeWhile continuesWord
    (⟨.token (wordToken (String.ofList word)), word⟩, cs.dropWhile continuesWord)
  else
    match operator? c, cs with
    | some op, '=' :: cs => (⟨.token (.assign (.compound op)), [c, '=']⟩, cs)
    | some op, cs => (⟨.token (.operator op), [c]⟩, cs)
    | none, cs =>
      match c with
      | '=' => (⟨.token (.assign .plain), [c]⟩, cs)
      | '(' => (⟨.token .leftParen, [c]⟩, cs)
      | ')' => (⟨.token .rightParen, [c]⟩, cs)
      | ',' => (⟨.token .comma, [c]⟩, cs)
      | ';' => (⟨.token .semicolon, [c]⟩, cs)
      | _ => (⟨.fault .invalidCharacter, [c]⟩, cs)

theorem blockComment_append (taken cs : List Char) :
    (blockComment taken cs).2.1 ++ (blockComment taken cs).2.2 = taken.reverse ++ cs := by
  fun_induction blockComment taken cs <;> simp_all

theorem blockComment_length (taken cs : List Char) :
    (blockComment taken cs).2.2.length ≤ cs.length := by
  fun_induction blockComment taken cs <;> grind

theorem stringRest_append (quote : Char) (value taken cs : List Char) :
    (stringRest quote value taken cs).2.1 ++ (stringRest quote value taken cs).2.2
      = taken.reverse ++ cs := by
  fun_induction stringRest quote value taken cs <;> simp_all

theorem stringRest_length (quote : Char) (value taken cs : List Char) :
    (stringRest quote value taken cs).2.2.length ≤ cs.length := by
  fun_induction stringRest quote value taken cs <;> grind

theorem numberRest_append (cs : List Char) : (numberRest cs).1 ++ (numberRest cs).2 = cs := by
  have h := @List.takeWhile_append_dropWhile _ Char.isDigit cs
  unfold numberRest
  split
  next more heq =>
    rw [heq] at h
    simpa using h
  next more => exact h

/-- The first piece and what comes after it are the text. -/
theorem Piece.first_append (c : Char) (cs : List Char) :
    (Piece.first c cs).1.text ++ (Piece.first c cs).2 = c :: cs := by
  unfold Piece.first
  split
  · simp
  split
  · simp [lineComment]
  split
  next h =>
    obtain ⟨rfl, h⟩ : c = '/' ∧ cs.head? = some '*' := by simpa using h
    obtain ⟨cs, rfl⟩ : ∃ rest, cs = '*' :: rest := by
      cases cs with
      | nil => simp at h
      | cons d rest => exact ⟨rest, by simp at h; rw [h]⟩
    exact blockComment_append ['*', '/'] cs
  split
  · have happ := stringRest_append c [] [c] cs
    dsimp only
    split <;> simpa using happ
  split
  · simp [numberRest_append]
  split
  · simp
  split
  · simp
  · simp
  · split <;> simp

/-- A piece takes at least one character. -/
theorem Piece.first_length (c : Char) (cs : List Char) :
    (Piece.first c cs).2.length ≤ cs.length := by
  have drop (p : Char → Bool) : (cs.dropWhile p).length ≤ cs.length :=
    (List.dropWhile_sublist p).length_le
  unfold Piece.first
  split
  · exact Nat.le_refl _
  split
  · exact drop _
  split
  · have h := blockComment_length ['*', '/'] cs.tail
    simp only [List.length_tail] at h
    dsimp only
    omega
  split
  · have h := stringRest_length c [] [c] cs
    dsimp only
    split <;> exact h
  split
  · have h := congrArg List.length (numberRest_append cs)
    simp only [List.length_append] at h
    dsimp only
    omega
  split
  · exact drop _
  split
  · simp
  · exact Nat.le_refl _
  · split <;> exact Nat.le_refl _

theorem Piece.first_text_ne_nil (c : Char) (cs : List Char) : (Piece.first c cs).1.text ≠ [] := by
  intro h
  have happ := congrArg List.length (Piece.first_append c cs)
  have hlength := Piece.first_length c cs
  rw [h, List.nil_append, List.length_cons] at happ
  omega

/-- The pieces of a text, after some that are known, which are given in reverse. -/
def piecesAfter (known : List Piece) (cs : List Char) : List Piece :=
  match cs with
  | [] => known.reverse
  | c :: cs =>
    have := Piece.first_length c cs
    piecesAfter ((Piece.first c cs).1 :: known) (Piece.first c cs).2
termination_by cs.length
decreasing_by simp only [List.length_cons]; omega

/-- The pieces of a text. -/
def pieces (cs : List Char) : List Piece :=
  piecesAfter [] cs

@[simp] theorem piecesAfter_nil (known : List Piece) : piecesAfter known [] = known.reverse := by
  rw [piecesAfter]

theorem piecesAfter_cons (known : List Piece) (c : Char) (cs : List Char) :
    piecesAfter known (c :: cs)
      = piecesAfter ((Piece.first c cs).1 :: known) (Piece.first c cs).2 := by
  rw [piecesAfter]

theorem piecesAfter_eq (known : List Piece) (cs : List Char) :
    piecesAfter known cs = known.reverse ++ pieces cs := by
  unfold pieces
  generalize hn : cs.length = n
  induction n using Nat.strongRecOn generalizing known cs with
  | ind n ih =>
    cases cs with
    | nil => simp
    | cons c cs =>
      have hlt := Piece.first_length c cs
      simp only [List.length_cons] at hn
      rw [piecesAfter_cons, piecesAfter_cons, ih _ (by omega) _ _ rfl,
        ih _ (by omega) [(Piece.first c cs).1] _ rfl]
      simp

@[simp] theorem pieces_nil : pieces [] = [] := by
  simp [pieces]

/-- The pieces of a text are its first piece and those of what comes after. -/
theorem pieces_cons (c : Char) (cs : List Char) :
    pieces (c :: cs) = (Piece.first c cs).1 :: pieces (Piece.first c cs).2 := by
  rw [pieces, piecesAfter_cons, piecesAfter_eq]
  simp

/-- The pieces put together are the text. -/
theorem flatMap_text_pieces (cs : List Char) : (pieces cs).flatMap Piece.text = cs := by
  generalize hn : cs.length = n
  induction n using Nat.strongRecOn generalizing cs with
  | ind n ih =>
    cases cs with
    | nil => simp
    | cons c cs =>
      have hlt := Piece.first_length c cs
      simp only [List.length_cons] at hn
      rw [pieces_cons, List.flatMap_cons, ih _ (by omega) _ rfl, Piece.first_append]

end PipedCompiler.Language
