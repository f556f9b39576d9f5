import PipedCompiler.Language.Pieces
import PipedCompiler.Text.Position

/-!
# The lexemes of a text

The tokens among the pieces of a text, each with its place, and the faults among them.
-/

namespace PipedCompiler.Language

open PipedCompiler.Text

/-- A text read as lexemes. -/
structure Scan where
  lexemes : List Lexeme
  errors : List LexicalError
  /-- How many bytes the text has. -/
  size : Nat
  /-- Whether a line break stands between the last lexeme and the end. -/
  newlineAtEnd : Bool
  deriving Repr, DecidableEq

/-- Appends a piece. -/
def Scan.add (s : Scan) (p : Piece) : Scan :=
  let size := s.size + byteLength p.text
  match p.kind with
  | .token t => ⟨⟨t, s.size, s.newlineAtEnd⟩ :: s.lexemes, s.errors, size, false⟩
  | .gap => ⟨s.lexemes, s.errors, size, s.newlineAtEnd || p.text.contains '\n'⟩
  | .fault f => ⟨s.lexemes, ⟨s.size, f⟩ :: s.errors, size, s.newlineAtEnd || p.text.contains '\n'⟩

/-- The scan of no text. -/
def Scan.empty : Scan := ⟨[], [], 0, false⟩

/-- The scan of a text cut into pieces. -/
def Scan.ofPieces (ps : List Piece) : Scan :=
  let s := ps.foldl Scan.add Scan.empty
  { s with lexemes := s.lexemes.reverse, errors := s.errors.reverse }

/-- Whether the piece is a word of a single character that takes several bytes: such a word cannot
be read. -/
def Piece.isUnreadable (p : Piece) : Bool :=
  match p.kind, p.text with
  | .token (.ident _), [c] => c.utf8Size ≠ 1
  | _, _ => false

/-- Reads a text as lexemes; `none` if some word of it cannot be read. -/
def Scan.ofText? (cs : List Char) : Option Scan :=
  let ps := pieces cs
  if ps.any Piece.isUnreadable then none else some (.ofPieces ps)

end PipedCompiler.Language
