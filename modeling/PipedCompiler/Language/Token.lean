/-!
# Tokens

The words of the language, and the faults that can be found between them.
-/

namespace PipedCompiler.Language

/-- A word that cannot be a name. -/
inductive Keyword where
  | importWord
  | fromWord
  | exportWord
  | letWord
  | constWord
  | declareWord
  deriving Repr, DecidableEq

/-- How a keyword is spelled. -/
def Keyword.text : Keyword → String
  | .importWord => "import"
  | .fromWord => "from"
  | .exportWord => "export"
  | .letWord => "let"
  | .constWord => "const"
  | .declareWord => "declare"

/-- The keyword spelled by a word. -/
def Keyword.ofText? (word : String) : Option Keyword :=
  [.importWord, .fromWord, .exportWord, .letWord, .constWord, .declareWord].find? (·.text == word)

/-- An operator between two operands. -/
inductive BinaryOp where
  | add
  | sub
  | mul
  | div
  deriving Repr, DecidableEq

/-- How an operator is spelled. -/
def BinaryOp.text : BinaryOp → String
  | .add => "+"
  | .sub => "-"
  | .mul => "*"
  | .div => "/"

/-- An assignment, plain or combined with an operator. -/
inductive AssignOp where
  | plain
  | compound (op : BinaryOp)
  deriving Repr, DecidableEq

/-- How an assignment is spelled. -/
def AssignOp.text : AssignOp → String
  | .plain => "="
  | .compound op => op.text ++ "="

/-- A word of the language. -/
inductive Token where
  | ident (text : String)
  | number (text : String)
  /-- A string literal, with its escapes resolved. -/
  | str (value : String)
  | keyword (word : Keyword)
  | assign (op : AssignOp)
  | operator (op : BinaryOp)
  | leftParen
  | rightParen
  | comma
  | semicolon
  deriving Repr, DecidableEq

/-- A token and where it stands. -/
structure Lexeme where
  token : Token
  /-- Bytes before the token. -/
  offset : Nat
  /-- Whether a line break separates the token from the one before. -/
  newlineBefore : Bool
  deriving Repr, DecidableEq

/-- What can be wrong with characters between tokens. -/
inductive LexicalFault where
  | invalidCharacter
  | unterminatedString
  | unterminatedComment
  deriving Repr, DecidableEq

/-- The code a lexical fault is reported under. -/
def LexicalFault.code : LexicalFault → String
  | .invalidCharacter => "TS1127"
  | .unterminatedString => "TS1002"
  | .unterminatedComment => "TS1010"

/-- The wording of a lexical fault. -/
def LexicalFault.message : LexicalFault → String
  | .invalidCharacter => "Invalid character."
  | .unterminatedString => "Unterminated string literal."
  | .unterminatedComment => "'*/' expected."

/-- A lexical fault and where it starts. -/
structure LexicalError where
  offset : Nat
  fault : LexicalFault
  deriving Repr, DecidableEq

end PipedCompiler.Language
