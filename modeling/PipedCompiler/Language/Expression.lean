import PipedCompiler.Language.Parser

/-!
# Reading expressions

An expression is a sum of products of signed operands.  Parsers that repeat something are given a
bound on the number of lexemes ahead: every repetition takes at least one, so where the bound is
zero nothing is ahead and the end has been reached.
-/

namespace PipedCompiler.Language

namespace Parser

/-- Extends the left operand by operators and further operands, as long as they follow. -/
def chainRest (op? : Token → Option BinaryOp) (operand : Parser Expr) :
    (bound : Nat) → Expr → Parser Expr
  | 0, lhs, ls => .parsed lhs ls
  | _ + 1, lhs, [] => .parsed lhs []
  | n + 1, lhs, l :: ls =>
    match op? l.token with
    | none => .parsed lhs (l :: ls)
    | some op =>
      match operand ls with
      | .parsed rhs ls => chainRest op? operand n (.binary op lhs rhs) ls
      | .failed fault ls => .failed fault ls

/-- Operands with operators between them, grouped from the left. -/
def chain (bound : Nat) (op? : Token → Option BinaryOp) (operand : Parser Expr) : Parser Expr :=
  operand >>= chainRest op? operand bound

/-- The operators of sums. -/
def sumOp? : Token → Option BinaryOp
  | .operator .add => some .add
  | .operator .sub => some .sub
  | _ => none

/-- The operators of products. -/
def productOp? : Token → Option BinaryOp
  | .operator .mul => some .mul
  | .operator .div => some .div
  | _ => none

/-- An operand with any number of signs before it. -/
def signed (operand : Parser Expr) : Parser Expr
  | [] => operand []
  | l :: ls =>
    if l.token = .operator .sub then
      match signed operand ls with
      | .parsed e ls => .parsed (.neg e) ls
      | .failed fault ls => .failed fault ls
    else operand (l :: ls)

/-- The arguments of a call from an argument on, after some that are known, in reverse. -/
def argumentsRest (expr : Parser Expr) : (bound : Nat) → List Expr → Parser (List Expr)
  | 0, _, ls => .failed .expressionExpected ls
  | n + 1, known, ls =>
    match expr ls with
    | .failed fault ls => .failed fault ls
    | .parsed e ls =>
      match ls with
      | ⟨.comma, _, _⟩ :: ls => argumentsRest expr n (e :: known) ls
      | ⟨.rightParen, _, _⟩ :: ls => .parsed (e :: known).reverse ls
      | ls => .failed (.expected ")") ls

/-- The arguments of a call, after its parenthesis. -/
def arguments (bound : Nat) (expr : Parser Expr) : Parser (List Expr)
  | ⟨.rightParen, _, _⟩ :: ls => .parsed [] ls
  | ls => argumentsRest expr bound [] ls

/-- A literal, a name, a call or an expression in parentheses.  The parenthesis of a call stands on
the line of the name. -/
def operand (bound : Nat) (expr : Parser Expr) : Parser Expr
  | ⟨.number text, _, _⟩ :: ls => .parsed (.number text) ls
  | ⟨.str value, _, _⟩ :: ls => .parsed (.str value) ls
  | ⟨.ident text, offset, _⟩ :: ⟨.leftParen, _, false⟩ :: ls =>
    (Expr.call ⟨text, offset⟩ <$> arguments bound expr) ls
  | ⟨.ident text, offset, _⟩ :: ls => .parsed (.name ⟨text, offset⟩) ls
  | ⟨.leftParen, _, _⟩ :: ls =>
    (do
      let e ← expr
      expect .rightParen ")"
      return Expr.paren e : Parser Expr) ls
  | ls => .failed .expressionExpected ls

/-- An expression, where at most `bound` lexemes are ahead. -/
def expr : (bound : Nat) → Parser Expr
  | 0, ls => .failed .expressionExpected ls
  | n + 1, ls =>
    chain (n + 1) sumOp? (chain (n + 1) productOp? (signed (operand n (expr n)))) ls

end Parser

end PipedCompiler.Language
