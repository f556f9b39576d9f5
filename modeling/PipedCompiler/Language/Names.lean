import PipedCompiler.Diagnostic.Basic
import PipedCompiler.Language.Tree

/-!
# Names and what they stand for

Each name of a module is declared once, names that are used are declared somewhere, and constants
and imports keep their values.  `nameErrors` lists the occurrences that break these rules.
-/

namespace PipedCompiler.Language

/-- What a name stands for. -/
inductive Binding where
  | changeable
  | constant
  | imported
  /-- Something declared outside. -/
  | ambient
  deriving Repr, DecidableEq

/-- What a statement declares. -/
def Stmt.declaration? : Stmt → Option (Name × Binding)
  | .imports binding _ _ => some (binding, .imported)
  | .declares name => some (name, .ambient)
  | .variable _ .constWord name _ => some (name, .constant)
  | .variable _ _ name _ => some (name, .changeable)
  | _ => none

/-- The declarations of a module, in order. -/
def declarations (statements : List Stmt) : List (Name × Binding) :=
  statements.filterMap Stmt.declaration?

/-- The names that a module declares, in order. -/
def declaredNames (statements : List Stmt) : List Name :=
  (declarations statements).map Prod.fst

/-- What the last declaration of a name makes it stand for. -/
def bindingOf? (declared : List (Name × Binding)) (text : String) : Option Binding :=
  (declared.reverse.find? (·.1.text == text)).map Prod.snd

mutual

/-- The names used in an expression, in order. -/
def Expr.names : Expr → List Name
  | .number _ => []
  | .str _ => []
  | .name n => [n]
  | .neg operand => operand.names
  | .binary _ lhs rhs => lhs.names ++ rhs.names
  | .call callee args => callee :: Expr.namesOfList args
  | .paren inner => inner.names

/-- The names used in some expressions, in order. -/
def Expr.namesOfList : List Expr → List Name
  | [] => []
  | e :: es => e.names ++ Expr.namesOfList es

end

/-- How a name occurs. -/
inductive Use where
  | read (name : Name)
  | written (name : Name)
  deriving Repr, DecidableEq

/-- The uses of names in a statement, in order. -/
def Stmt.uses : Stmt → List Use
  | .imports _ _ _ => []
  | .declares _ => []
  | .variable _ _ _ none => []
  | .variable _ _ _ (some value) => value.names.map .read
  | .assign target _ value => .written target :: value.names.map .read
  | .expr e => e.names.map .read

/-- What can be wrong with an occurrence of a name. -/
inductive NameFault where
  | duplicate
  | unknown
  | writtenConstant
  | writtenImport
  deriving Repr, DecidableEq

/-- The code a fault is reported under. -/
def NameFault.code : NameFault → String
  | .duplicate => "TS2300"
  | .unknown => "TS2304"
  | .writtenConstant => "TS2588"
  | .writtenImport => "TS2632"

/-- The wording of a fault. -/
def NameFault.message (name : String) : NameFault → String
  | .duplicate => s!"Duplicate identifier '{name}'."
  | .unknown => s!"Cannot find name '{name}'."
  | .writtenConstant => s!"Cannot assign to '{name}' because it is a constant."
  | .writtenImport => s!"Cannot assign to '{name}' because it is an import."

/-- A fault and the occurrence it is found at. -/
structure NameError where
  name : Name
  fault : NameFault
  deriving Repr, DecidableEq

/-- The declarations of names that are declared before, where `earlier` are. -/
def duplicates (earlier : List String) : List Name → List NameError
  | [] => []
  | n :: ns =>
    if earlier.contains n.text then ⟨n, .duplicate⟩ :: duplicates earlier ns
    else duplicates (n.text :: earlier) ns

/-- The fault of a use, if it has one. -/
def Use.error? (declared : List (Name × Binding)) (globals : List String) : Use → Option NameError
  | .read n =>
    if (bindingOf? declared n.text).isSome || globals.contains n.text then none
    else some ⟨n, .unknown⟩
  | .written n =>
    match bindingOf? declared n.text with
    | some .constant => some ⟨n, .writtenConstant⟩
    | some .imported => some ⟨n, .writtenImport⟩
    | some _ => none
    | none => if globals.contains n.text then none else some ⟨n, .unknown⟩

/-- The occurrences of names in a module that break a rule: duplicates first, then uses. -/
def nameErrors (globals : List String) (statements : List Stmt) : List NameError :=
  let declared := declarations statements
  duplicates [] (declared.map Prod.fst)
    ++ (statements.flatMap Stmt.uses).filterMap (Use.error? declared globals)

/-- The diagnostic of a name error in a file. -/
def NameError.diagnostic (f : SourceFile) (e : NameError) : Diagnostic :=
  (Diagnostic.error e.fault.code (e.fault.message e.name.text)).place f e.name.offset

/-- The diagnostics of the names in a module. -/
def checkNames (f : SourceFile) (globals : List String) (statements : List Stmt) :
    List Diagnostic :=
  (nameErrors globals statements).map (NameError.diagnostic f)

end PipedCompiler.Language
