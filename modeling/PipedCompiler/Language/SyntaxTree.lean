import PipedCompiler.Language.Expression
import PipedCompiler.Language.Lexemes

/-!
# Reading modules

Statements end at a semicolon, at a line break or at the end.  After a fault, reading goes on
behind the next such place, so every fault costs one statement.
-/

namespace PipedCompiler.Language

namespace Parser

/-- The keyword that introduces a variable, if there is one. -/
def variableKind : Parser VariableKind
  | ⟨.keyword .letWord, _, _⟩ :: ls => .parsed .letWord ls
  | ⟨.keyword .constWord, _, _⟩ :: ls => .parsed .constWord ls
  | ls => .parsed .bare ls

/-- The value that a variable starts with, if it has one. -/
def initialValue (bound : Nat) : Parser (Option Expr)
  | ⟨.assign .plain, _, _⟩ :: ls => (some <$> expr bound) ls
  | ls => .parsed none ls

/-- Only variables introduced by `let` may lack a value. -/
def needsValue (kind : VariableKind) (name : Name) (value : Option Expr) : Parser Unit :=
  match kind, value with
  | .constWord, none => fail (.uninitialized name)
  | .bare, none => fail (.expected "=")
  | _, _ => pure ()

/-- A variable. -/
def variableStmt (bound : Nat) (isExported : Bool) : Parser Stmt := do
  let kind ← variableKind
  let name ← name
  let value ← initialValue bound
  needsValue kind name value
  return .variable isExported kind name value

/-- The module that an import names. -/
def importSpecifier (binding : Name) : Parser Stmt
  | ⟨.str specifier, offset, _⟩ :: ls => .parsed (.imports binding specifier offset) ls
  | ls => .failed .stringExpected ls

/-- An import, after its keyword. -/
def importStmt : Parser Stmt := do
  let binding ← name
  expect (.keyword .fromWord) "from"
  importSpecifier binding

/-- A statement without its end. -/
def statementBody (bound : Nat) : Parser Stmt
  | ⟨.keyword .importWord, _, _⟩ :: ls => importStmt ls
  | ⟨.keyword .declareWord, _, _⟩ :: ls => (Stmt.declares <$> name) ls
  | ⟨.keyword .exportWord, _, _⟩ :: ls => variableStmt bound true ls
  | ⟨.keyword .letWord, offset, newline⟩ :: ls =>
    variableStmt bound false (⟨.keyword .letWord, offset, newline⟩ :: ls)
  | ⟨.keyword .constWord, offset, newline⟩ :: ls =>
    variableStmt bound false (⟨.keyword .constWord, offset, newline⟩ :: ls)
  | ⟨.ident text, offset, _⟩ :: ⟨.assign op, _, _⟩ :: ls =>
    (Stmt.assign ⟨text, offset⟩ op <$> expr bound) ls
  | ls => (Stmt.expr <$> expr bound) ls

/-- The end of a statement. -/
def statementEnd : Parser Unit
  | [] => .parsed () []
  | l :: ls =>
    if l.token = .semicolon then .parsed () ls
    else if l.newlineBefore then .parsed () (l :: ls)
    else .failed (.expected ";") (l :: ls)

/-- A statement, where at most `bound` lexemes are ahead. -/
def statement (bound : Nat) : Parser Stmt := do
  let s ← statementBody bound
  statementEnd
  return s

end Parser

/-- The lexemes from the next place on at which a statement may start. -/
def skipStatement : List Lexeme → List Lexeme
  | [] => []
  | l :: ls =>
    if l.newlineBefore then l :: ls
    else if l.token = .semicolon then ls
    else skipStatement ls

/-- Where to go on after a fault, when the statement started at `start` and reading stopped at
`rest`.  At least one lexeme is given up. -/
def recover (start rest : List Lexeme) : List Lexeme :=
  skipStatement (if rest.length = start.length then rest.tail else rest)

/-- A fault of a text. -/
inductive SyntaxFault where
  | lexical (fault : LexicalFault)
  | parse (fault : ParseFault)
  deriving Repr, DecidableEq

/-- The code a fault is reported under. -/
def SyntaxFault.code : SyntaxFault → String
  | .lexical fault => fault.code
  | .parse fault => fault.code

/-- The wording of a fault. -/
def SyntaxFault.message : SyntaxFault → String
  | .lexical fault => fault.message
  | .parse fault => fault.message

/-- A fault and where it is. -/
structure SyntaxError where
  offset : Nat
  fault : SyntaxFault
  deriving Repr, DecidableEq

/-- The byte offset of the next lexeme, or of the end. -/
def nextOffset (size : Nat) : List Lexeme → Nat
  | [] => size
  | l :: _ => l.offset

/-- The place a fault is reported at, when reading stopped before `rest`. -/
def ParseFault.offset (size : Nat) (rest : List Lexeme) : ParseFault → Nat
  | .uninitialized name => name.offset
  | _ => nextOffset size rest

/-- A text read as a module. -/
structure SyntaxTree where
  statements : List Stmt
  errors : List SyntaxError
  deriving Repr

namespace SyntaxTree

/-- Reads statements while lexemes are ahead, at most `bound` of them.  The statements and errors so
far are given in reverse. -/
def readFrom (size : Nat) : (bound : Nat) → SyntaxTree → List Lexeme → SyntaxTree
  | 0, t, _ => t
  | _ + 1, t, [] => t
  | n + 1, t, l :: ls =>
    if l.token = .semicolon then readFrom size n t ls
    else
      match Parser.statement (n + 1) (l :: ls) with
      | .parsed s rest => readFrom size n { t with statements := s :: t.statements } rest
      | .failed fault rest =>
        let e : SyntaxError := ⟨fault.offset size rest, .parse fault⟩
        readFrom size n { t with errors := e :: t.errors } (recover (l :: ls) rest)

/-- Reads lexemes as a module of `size` bytes. -/
def ofLexemes (size : Nat) (ls : List Lexeme) : SyntaxTree :=
  let t := readFrom size ls.length ⟨[], []⟩ ls
  ⟨t.statements.reverse, t.errors.reverse⟩

/-- Sorts errors by their places; those of one place stay in order. -/
def sortErrors (es : List SyntaxError) : List SyntaxError :=
  es.mergeSort fun a b => a.offset ≤ b.offset

/-- Reads a scanned text as a module.  Lexical faults are reported with the others. -/
def ofScan (s : Scan) : SyntaxTree :=
  let t := ofLexemes s.size s.lexemes
  { t with errors := sortErrors (s.errors.map (fun e => ⟨e.offset, .lexical e.fault⟩) ++ t.errors) }

/-- Reads a text as a module; `none` if some word of it cannot be read. -/
def ofText? (cs : List Char) : Option SyntaxTree :=
  (Scan.ofText? cs).map ofScan

/-- The imports of the module, in order. -/
def imports (t : SyntaxTree) : List Import :=
  importsOf t.statements

end SyntaxTree

end PipedCompiler.Language
