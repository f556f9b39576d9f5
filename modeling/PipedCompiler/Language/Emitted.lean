import PipedCompiler.Language.Tree
import PipedCompiler.Options

/-!
# The emitted text

A module is emitted as a script, a statement a line.  Imports become calls of `require`, exports
become assignments to `exports`, and declarations of outside names vanish.
-/

namespace PipedCompiler.Language

/-- How a character is written in a string literal. -/
def escapeChar (c : Char) : List Char :=
  match c with
  | '"' => ['\\', '"']
  | '\\' => ['\\', '\\']
  | '\n' => ['\\', 'n']
  | '\r' => ['\\', 'r']
  | '\t' => ['\\', 't']
  | '\x00' => ['\\', '0']
  | c => [c]

/-- A string literal of the given value. -/
def literal (value : String) : List Char :=
  '"' :: value.toList.flatMap escapeChar ++ ['"']

mutual

/-- An expression as text. -/
def Expr.emit : Expr → List Char
  | .number text => text.toList
  | .str value => literal value
  | .name n => n.text.toList
  | .neg operand => '-' :: operand.emit
  | .binary op lhs rhs => lhs.emit ++ ' ' :: op.text.toList ++ ' ' :: rhs.emit
  | .call callee args => callee.text.toList ++ '(' :: Expr.emitArguments args ++ [')']
  | .paren inner => '(' :: inner.emit ++ [')']

/-- Expressions as text, with commas between them. -/
def Expr.emitArguments : List Expr → List Char
  | [] => []
  | [e] => e.emit
  | e :: d :: es => e.emit ++ ',' :: ' ' :: Expr.emitArguments (d :: es)

end

/-- The keyword of an emitted variable. -/
def VariableKind.keyword (target : LanguageTarget) : VariableKind → String
  | .letWord => if target.hasBlockScoping then "let" else "var"
  | .constWord => if target.hasBlockScoping then "const" else "var"
  | .bare => "var"

/-- The lines that a statement is emitted as. -/
def Stmt.emitLines (target : LanguageTarget) : Stmt → List (List Char)
  | .imports binding specifier _ =>
    ["var ".toList ++ binding.text.toList ++ " = require(".toList ++ literal specifier
      ++ ");".toList]
  | .declares _ => []
  | .variable isExported kind name value =>
    let declared := (kind.keyword target).toList ++ ' ' :: name.text.toList
    let valued := match value with
      | some e => declared ++ " = ".toList ++ e.emit
      | none => declared
    (valued ++ [';'])
      :: if isExported then
          ["exports.".toList ++ name.text.toList ++ " = ".toList ++ name.text.toList ++ [';']]
        else []
  | .assign target op value =>
    [target.text.toList ++ ' ' :: op.text.toList ++ ' ' :: value.emit ++ [';']]
  | .expr e => [e.emit ++ [';']]

/-- The lines of an emitted module. -/
def emitLines (target : LanguageTarget) (statements : List Stmt) : List (List Char) :=
  statements.flatMap (Stmt.emitLines target)

/-- An emitted module, each line ended by `newLine`. -/
def emitChars (target : LanguageTarget) (newLine : String) (statements : List Stmt) : List Char :=
  (emitLines target statements).flatMap (· ++ newLine.toList)

/-- An emitted module as a string. -/
def emit (target : LanguageTarget) (newLine : String) (statements : List Stmt) : String :=
  String.ofList (emitChars target newLine statements)

end PipedCompiler.Language
