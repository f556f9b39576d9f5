import PipedCompiler.Language.Token

/-!
# Syntax trees

A module is a list of statements.
-/

namespace PipedCompiler.Language

/-- An occurrence of an identifier. -/
structure Name where
  text : String
  /-- Bytes before the occurrence. -/
  offset : Nat
  deriving Repr, DecidableEq

/-- An expression. -/
inductive Expr where
  | number (text : String)
  | str (value : String)
  | name (name : Name)
  | neg (operand : Expr)
  | binary (op : BinaryOp) (lhs rhs : Expr)
  | call (callee : Name) (args : List Expr)
  | paren (inner : Expr)
  deriving Repr

/-- How a variable is introduced. -/
inductive VariableKind where
  | letWord
  | constWord
  /-- Without a keyword. -/
  | bare
  deriving Repr, DecidableEq

/-- A statement. -/
inductive Stmt where
  | imports (binding : Name) (specifier : String) (offset : Nat)
  | declares (name : Name)
  | variable (isExported : Bool) (kind : VariableKind) (name : Name) (value : Option Expr)
  | assign (target : Name) (op : AssignOp) (value : Expr)
  | expr (e : Expr)
  deriving Repr

/-- An imported module as it is written, and where. -/
structure Import where
  specifier : String
  offset : Nat
  deriving Repr, DecidableEq

/-- The import of a statement. -/
def Stmt.import? : Stmt → Option Import
  | .imports _ specifier offset => some ⟨specifier, offset⟩
  | _ => none

/-- The imports of a module, in order. -/
def importsOf (statements : List Stmt) : List Import :=
  statements.filterMap Stmt.import?

end PipedCompiler.Language
