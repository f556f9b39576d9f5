import PipedCompiler.Language.Tree

/-!
# Parsers

A parser reads something from the front of a list of lexemes, or stops where it finds a fault.
-/

namespace PipedCompiler.Language

/-- What can be wrong with a list of lexemes. -/
inductive ParseFault where
  | identifierExpected
  | expected (mark : String)
  | stringExpected
  | expressionExpected
  /-- A constant without a value. -/
  | uninitialized (name : Name)
  deriving Repr, DecidableEq

/-- The code a fault is reported under. -/
def ParseFault.code : ParseFault → String
  | .identifierExpected => "TS1003"
  | .expected _ => "TS1005"
  | .stringExpected => "TS1141"
  | .expressionExpected => "TS1109"
  | .uninitialized _ => "TS1155"

/-- The wording of a fault. -/
def ParseFault.message : ParseFault → String
  | .identifierExpected => "Identifier expected."
  | .expected mark => s!"'{mark}' expected."
  | .stringExpected => "String literal expected."
  | .expressionExpected => "Expression expected."
  | .uninitialized _ => "'const' declarations must be initialized."

/-- What a parser comes to, and the lexemes it leaves. -/
inductive Outcome (α : Type) where
  | parsed (value : α) (rest : List Lexeme)
  | failed (fault : ParseFault) (rest : List Lexeme)

/-- The lexemes that are left. -/
def Outcome.rest {α : Type} : Outcome α → List Lexeme
  | .parsed _ rest => rest
  | .failed _ rest => rest

/-- A way to read something from the front of a list of lexemes. -/
abbrev Parser (α : Type) := List Lexeme → Outcome α

namespace Parser

variable {α β : Type}

/-- Reads nothing. -/
def pure (a : α) : Parser α :=
  fun ls => .parsed a ls

/-- Reads one thing, then another that may hang on it. -/
def bind (p : Parser α) (next : α → Parser β) : Parser β :=
  fun ls =>
    match p ls with
    | .parsed a rest => next a rest
    | .failed fault rest => .failed fault rest

instance : Monad Parser where
  pure := Parser.pure
  bind := Parser.bind

/-- Stops with a fault. -/
def fail (fault : ParseFault) : Parser α :=
  fun ls => .failed fault ls

/-- Takes the next token if it is the expected one; `mark` is its name in the fault. -/
def expect (token : Token) (mark : String) : Parser Unit := fun ls =>
  match ls with
  | [] => .failed (.expected mark) []
  | l :: ls => if l.token = token then .parsed () ls else .failed (.expected mark) (l :: ls)

/-- Takes an identifier. -/
def name : Parser Name
  | ⟨.ident text, offset, _⟩ :: ls => .parsed ⟨text, offset⟩ ls
  | ls => .failed .identifierExpected ls

end Parser

end PipedCompiler.Language
