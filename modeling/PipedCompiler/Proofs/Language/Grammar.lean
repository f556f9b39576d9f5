import Mathlib.Data.List.Forall2
import PipedCompiler.Language.SyntaxTree

/-!
# The grammar of modules

How the tokens of a module spell its syntax tree.  Operators group from the left and products before
sums, so a tree needs no other parentheses than those it has.  Statements are set apart by
semicolons or line breaks.  Line breaks may stand anywhere else, except before the parenthesis of a
call.
-/

namespace PipedCompiler.Language

/-! ## Induction -/

/-- What holds of an expression if it holds of its parts holds of all expressions. -/
@[elab_as_elim, induction_eliminator]
theorem Expr.induction {P : Expr → Prop} (number : ∀ text, P (.number text))
    (str : ∀ value, P (.str value)) (name : ∀ name, P (.name name))
    (neg : ∀ operand, P operand → P (.neg operand))
    (binary : ∀ op lhs rhs, P lhs → P rhs → P (.binary op lhs rhs))
    (call : ∀ callee args, (∀ arg ∈ args, P arg) → P (.call callee args))
    (paren : ∀ inner, P inner → P (.paren inner)) (e : Expr) : P e :=
  @Expr.rec P (fun args ↦ ∀ arg ∈ args, P arg) number str name neg binary call paren nofun
    (fun _ _ harg hargs ↦ List.forall_mem_cons.mpr ⟨harg, hargs⟩) e

/-! ## Tokens -/

/-- A token of a spelling. -/
structure Mark where
  token : Token
  /-- Whether the token has to stand on the line of the one before. -/
  joined : Bool

namespace Mark

/-- A token that may stand on a line of its own. -/
def free (t : Token) : Mark := ⟨t, false⟩

/-- Whether a lexeme can stand for the token. -/
structure Fits (m : Mark) (l : Lexeme) : Prop where
  token : l.token = m.token
  newlineBefore : m.joined = true → l.newlineBefore = false

theorem fits_free {t : Token} {l : Lexeme} (h : l.token = t) : (free t).Fits l :=
  ⟨h, nofun⟩

end Mark

/-- Whether lexemes stand for the tokens of a spelling, one for each. -/
abbrev Spells (ms : List Mark) (ls : List Lexeme) : Prop :=
  List.Forall₂ Mark.Fits ms ls

namespace Spells

theorem nil_iff {ls : List Lexeme} : Spells [] ls ↔ ls = [] :=
  List.forall₂_nil_left_iff

theorem cons_iff {m : Mark} {ms : List Mark} {ls : List Lexeme} :
    Spells (m :: ms) ls ↔ ∃ l rest, m.Fits l ∧ Spells ms rest ∧ ls = l :: rest :=
  List.forall₂_cons_left_iff

/-- What spells a token and others starts with a lexeme of that token. -/
theorem free_cons_iff {t : Token} {ms : List Mark} {ls : List Lexeme} :
    Spells (.free t :: ms) ls ↔
      ∃ offset newline rest, Spells ms rest ∧ ls = ⟨t, offset, newline⟩ :: rest := by
  refine cons_iff.trans ⟨?_, ?_⟩
  · rintro ⟨⟨token, offset, newline⟩, rest, hfits, hrest, rfl⟩
    obtain rfl : token = t := hfits.token
    exact ⟨offset, newline, rest, hrest, rfl⟩
  · rintro ⟨offset, newline, rest, hrest, rfl⟩
    exact ⟨_, rest, Mark.fits_free rfl, hrest, rfl⟩

/-- What spells a single token is a lexeme of it. -/
theorem free_iff {t : Token} {ls : List Lexeme} :
    Spells [.free t] ls ↔ ∃ offset newline, ls = [⟨t, offset, newline⟩] := by
  simp [free_cons_iff]

theorem append_iff {ms ns : List Mark} {ls : List Lexeme} :
    Spells (ms ++ ns) ls ↔ ∃ taken rest, Spells ms taken ∧ Spells ns rest ∧ ls = taken ++ rest := by
  constructor
  · intro h
    induction ms generalizing ls with
    | nil => exact ⟨[], ls, .nil, h, rfl⟩
    | cons m ms ih =>
        obtain ⟨l, ls, hfits, hls, rfl⟩ := cons_iff.mp h
        obtain ⟨taken, rest, htaken, hrest, rfl⟩ := ih hls
        exact ⟨l :: taken, rest, .cons hfits htaken, hrest, rfl⟩
  · rintro ⟨taken, rest, htaken, hrest, rfl⟩
    exact List.rel_append htaken hrest

/-- Lexemes that spell something have its tokens. -/
theorem map_token {ms : List Mark} {ls : List Lexeme} (h : Spells ms ls) :
    ls.map Lexeme.token = ms.map Mark.token := by
  induction h with
  | nil => rfl
  | cons hfits _ ih => rw [List.map_cons, List.map_cons, hfits.token, ih]

end Spells

mutual

/-- The tokens of an expression. -/
def Expr.marks : Expr → List Mark
  | .number text => [.free (.number text)]
  | .str value => [.free (.str value)]
  | .name n => [.free (.ident n.text)]
  | .neg operand => .free (.operator .sub) :: operand.marks
  | .binary op lhs rhs => lhs.marks ++ .free (.operator op) :: rhs.marks
  | .call callee args =>
    .free (.ident callee.text) :: ⟨.leftParen, true⟩
      :: (Expr.marksOfArguments args ++ [.free .rightParen])
  | .paren inner => .free .leftParen :: (inner.marks ++ [.free .rightParen])

/-- The tokens of arguments, with commas between them. -/
def Expr.marksOfArguments : List Expr → List Mark
  | [] => []
  | [e] => e.marks
  | e :: d :: es => e.marks ++ .free .comma :: Expr.marksOfArguments (d :: es)

end

/-- The tokens that introduce a variable. -/
def VariableKind.marks : VariableKind → List Mark
  | .letWord => [.free (.keyword .letWord)]
  | .constWord => [.free (.keyword .constWord)]
  | .bare => []

/-- The tokens of a value that a variable starts with. -/
def initialMarks : Option Expr → List Mark
  | none => []
  | some e => .free (.assign .plain) :: e.marks

/-- The tokens of a statement. -/
def Stmt.marks : Stmt → List Mark
  | .imports binding specifier _ =>
    [.free (.keyword .importWord), .free (.ident binding.text), .free (.keyword .fromWord),
      .free (.str specifier)]
  | .declares name => [.free (.keyword .declareWord), .free (.ident name.text)]
  | .variable isExported kind name value =>
    (if isExported then [.free (.keyword .exportWord)] else [])
      ++ (kind.marks ++ .free (.ident name.text) :: initialMarks value)
  | .assign target op value => .free (.ident target.text) :: .free (.assign op) :: value.marks
  | .expr e => e.marks

/-- The tokens of a statement and a semicolon. -/
def Stmt.closedMarks (s : Stmt) : List Mark :=
  s.marks ++ [.free .semicolon]

/-- Whether expressions have tokens like this. -/
def Token.inExpression : Token → Bool
  | .keyword _ | .assign _ | .semicolon => false
  | _ => true

/-- Whether an expression can start with the token. -/
def Token.startsExpression : Token → Bool
  | .ident _ | .number _ | .str _ | .leftParen => true
  | .operator op => op = .sub
  | _ => false

theorem Expr.inExpression_of_mem_marksOfArguments {args : List Expr}
    (h : ∀ arg ∈ args, ∀ m ∈ arg.marks, m.token.inExpression = true) :
    ∀ m ∈ Expr.marksOfArguments args, m.token.inExpression = true := by
  induction args with
  | nil => exact nofun
  | cons e args ih =>
      rw [List.forall_mem_cons] at h
      cases args with
      | nil => exact h.1
      | cons d args =>
          rw [Expr.marksOfArguments, List.forall_mem_append, List.forall_mem_cons]
          exact ⟨h.1, rfl, ih h.2⟩

theorem Expr.inExpression_of_mem_marks (e : Expr) :
    ∀ m ∈ e.marks, m.token.inExpression = true := by
  induction e with
  | number text => simp [Expr.marks, Mark.free, Token.inExpression]
  | str value => simp [Expr.marks, Mark.free, Token.inExpression]
  | name n => simp [Expr.marks, Mark.free, Token.inExpression]
  | neg operand ih =>
      rw [Expr.marks, List.forall_mem_cons]
      exact ⟨rfl, ih⟩
  | binary op lhs rhs hlhs hrhs =>
      rw [Expr.marks, List.forall_mem_append, List.forall_mem_cons]
      exact ⟨hlhs, rfl, hrhs⟩
  | call callee args ih =>
      rw [Expr.marks, List.forall_mem_cons, List.forall_mem_cons, List.forall_mem_append,
        List.forall_mem_singleton]
      exact ⟨rfl, rfl, Expr.inExpression_of_mem_marksOfArguments ih, rfl⟩
  | paren inner ih =>
      rw [Expr.marks, List.forall_mem_cons, List.forall_mem_append, List.forall_mem_singleton]
      exact ⟨rfl, ih, rfl⟩

/-- The tokens of an argument are among those of all. -/
theorem Expr.mem_marksOfArguments {arg : Expr} {args : List Expr} (harg : arg ∈ args) {m : Mark}
    (hm : m ∈ arg.marks) : m ∈ Expr.marksOfArguments args := by
  induction args with
  | nil => cases harg
  | cons e args ih =>
      cases args with
      | nil => rwa [List.mem_singleton.mp harg] at hm
      | cons d args =>
          rw [Expr.marksOfArguments, List.mem_append, List.mem_cons]
          rcases List.mem_cons.mp harg with rfl | harg
          · exact .inl hm
          · exact .inr (.inr (ih harg))

/-- Arguments start with the first of them. -/
theorem Expr.marksOfArguments_cons (e : Expr) (args : List Expr) :
    ∃ ms, Expr.marksOfArguments (e :: args) = e.marks ++ ms := by
  cases args with
  | nil => exact ⟨[], by rw [List.append_nil, Expr.marksOfArguments]⟩
  | cons d args => exact ⟨_, rfl⟩

theorem Expr.marks_eq_cons (e : Expr) :
    ∃ t ms, e.marks = .free t :: ms ∧ t.startsExpression = true := by
  induction e with
  | binary op lhs rhs hlhs _ =>
      obtain ⟨t, ms, hmarks, ht⟩ := hlhs
      exact ⟨t, ms ++ .free (.operator op) :: rhs.marks, by rw [Expr.marks, hmarks]; rfl, ht⟩
  | _ => exact ⟨_, _, rfl, rfl⟩

theorem Stmt.marks_eq_cons (s : Stmt) :
    ∃ t ms, s.marks = .free t :: ms ∧ t ≠ .semicolon := by
  cases s with
  | imports binding specifier offset => exact ⟨_, _, rfl, nofun⟩
  | declares name => exact ⟨_, _, rfl, nofun⟩
  | «variable» isExported kind name value =>
      cases isExported <;> cases kind <;> exact ⟨_, _, rfl, nofun⟩
  | assign target op value => exact ⟨_, _, rfl, nofun⟩
  | expr e =>
      obtain ⟨t, ms, hmarks, ht⟩ := e.marks_eq_cons
      refine ⟨t, ms, hmarks, ?_⟩
      rintro rfl
      cases ht

/-! ## Grouping -/

/-- How tightly an operator binds. -/
def BinaryOp.rank : BinaryOp → Nat
  | .add => 0
  | .sub => 0
  | .mul => 1
  | .div => 1

/-- How tightly an expression holds together. -/
def Expr.rank : Expr → Nat
  | .binary op _ _ => op.rank
  | .neg _ => 2
  | _ => 3

/-- Whether an expression needs no other parentheses than those it has: what stands before an
operator binds at least as tightly as that, and what stands behind it binds more tightly. -/
inductive Expr.Grouped : Expr → Prop
  | number {text : String} : Grouped (.number text)
  | str {value : String} : Grouped (.str value)
  | name {name : Name} : Grouped (.name name)
  | neg {operand : Expr} (h : operand.Grouped) (hrank : 2 ≤ operand.rank) : Grouped (.neg operand)
  | binary {op : BinaryOp} {lhs rhs : Expr} (hlhs : lhs.Grouped) (hrhs : rhs.Grouped)
      (hleft : op.rank ≤ lhs.rank) (hright : op.rank < rhs.rank) : Grouped (.binary op lhs rhs)
  | call {callee : Name} {args : List Expr} (h : ∀ arg ∈ args, arg.Grouped) :
      Grouped (.call callee args)
  | paren {inner : Expr} (h : inner.Grouped) : Grouped (.paren inner)

/-- Whether an expression needs no further parentheses where it has to hold together at least so
tightly. -/
structure Expr.AtLevel (k : Nat) (e : Expr) : Prop where
  grouped : e.Grouped
  le_rank : k ≤ e.rank

theorem Expr.AtLevel.mono {j k : Nat} {e : Expr} (hjk : j ≤ k) (h : e.AtLevel k) : e.AtLevel j :=
  ⟨h.grouped, Nat.le_trans hjk h.le_rank⟩

/-- Whether a statement is one of the grammar: its expressions need no further parentheses,
constants have values, and variables without a keyword are exported and have values. -/
inductive Stmt.Normal : Stmt → Prop
  | imports {binding : Name} {specifier : String} {offset : Nat} :
      Normal (.imports binding specifier offset)
  | declares {name : Name} : Normal (.declares name)
  | letWord {isExported : Bool} {name : Name} {value : Option Expr} (h : ∀ e ∈ value, e.Grouped) :
      Normal (.variable isExported .letWord name value)
  | constWord {isExported : Bool} {name : Name} {e : Expr} (h : e.Grouped) :
      Normal (.variable isExported .constWord name (some e))
  | bare {name : Name} {e : Expr} (h : e.Grouped) : Normal (.variable true .bare name (some e))
  | assign {target : Name} {op : AssignOp} {value : Expr} (h : value.Grouped) :
      Normal (.assign target op value)
  | expr {e : Expr} (h : e.Grouped) : Normal (.expr e)

/-- A variable may lack its value if it is introduced by `let`, and its keyword if it is
exported. -/
theorem Stmt.normal_variable_iff {isExported : Bool} {kind : VariableKind} {name : Name}
    {value : Option Expr} :
    (Stmt.variable isExported kind name value).Normal ↔ (∀ e ∈ value, e.Grouped) ∧
      (kind = .letWord ∨ value.isSome = true) ∧ (kind = .bare → isExported = true) := by
  constructor
  · intro h
    cases h with
    | letWord h => exact ⟨h, .inl rfl, nofun⟩
    | constWord h => exact ⟨by simpa using h, .inr rfl, nofun⟩
    | bare h => exact ⟨by simpa using h, .inr rfl, fun _ ↦ rfl⟩
  · rintro ⟨hgrouped, hvalue, hbare⟩
    cases kind with
    | letWord => exact .letWord hgrouped
    | constWord =>
        obtain ⟨e, rfl⟩ := Option.isSome_iff_exists.mp (hvalue.resolve_left nofun)
        exact .constWord (hgrouped e rfl)
    | bare =>
        obtain ⟨e, rfl⟩ := Option.isSome_iff_exists.mp (hvalue.resolve_left nofun)
        obtain rfl := hbare rfl
        exact .bare (hgrouped e rfl)

/-! ## Statements one behind the other -/

/-- Whether a statement may end before these lexemes: there is nothing more, or a semicolon, or
something on another line. -/
def Closes (rest : List Lexeme) : Prop :=
  ∀ l ∈ rest.head?, l.token = .semicolon ∨ l.newlineBefore = true

/-- Whether lexemes spell statements with any semicolons around them, where each statement ends
before a semicolon, before another line or at the end. -/
inductive Laid : List Stmt → List Lexeme → Prop
  | nil : Laid [] []
  | semicolon {ss : List Stmt} {l : Lexeme} {ls : List Lexeme} (h : l.token = .semicolon)
      (hrest : Laid ss ls) : Laid ss (l :: ls)
  | statement {s : Stmt} {ss : List Stmt} {ls rest : List Lexeme} (h : Spells s.marks ls)
      (hcloses : Closes rest) (hrest : Laid ss rest) : Laid (s :: ss) (ls ++ rest)

/-! ## Trees without places -/

/-- The identifier without its place. -/
def Name.unplaced (n : Name) : Name := ⟨n.text, 0⟩

mutual

/-- An expression without the places of its parts. -/
def Expr.unplaced : Expr → Expr
  | .number text => .number text
  | .str value => .str value
  | .name n => .name n.unplaced
  | .neg operand => .neg operand.unplaced
  | .binary op lhs rhs => .binary op lhs.unplaced rhs.unplaced
  | .call callee args => .call callee.unplaced (Expr.unplacedAll args)
  | .paren inner => .paren inner.unplaced

/-- Expressions without the places of their parts. -/
def Expr.unplacedAll : List Expr → List Expr
  | [] => []
  | e :: es => e.unplaced :: Expr.unplacedAll es

end

/-- A statement without the places of its parts. -/
def Stmt.unplaced : Stmt → Stmt
  | .imports binding specifier _ => .imports binding.unplaced specifier 0
  | .declares name => .declares name.unplaced
  | .variable isExported kind name value =>
    .variable isExported kind name.unplaced (value.map Expr.unplaced)
  | .assign target op value => .assign target.unplaced op value.unplaced
  | .expr e => .expr e.unplaced

theorem Expr.unplacedAll_eq (es : List Expr) : Expr.unplacedAll es = es.map Expr.unplaced := by
  induction es with
  | nil => rfl
  | cons e es ih => rw [Expr.unplacedAll, ih, List.map_cons]

end PipedCompiler.Language
