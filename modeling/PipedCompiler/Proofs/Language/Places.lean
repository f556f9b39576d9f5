import PipedCompiler.Proofs.Language.Remainder

/-!
# Moved texts

Parsers look at tokens and at line breaks, never at places.  So where lexemes are moved, what is
read from them is moved in the same way, and so is what is wrong with them.  It makes no difference
either if others stand behind them, as long as these start with a semicolon on a line of its own: to
every parser such a semicolon is as good as the end.
-/

namespace PipedCompiler.Language

variable {α β : Type}

/-! ## Moving -/

/-- The identifier at another place. -/
def Name.move (g : Nat → Nat) (n : Name) : Name := ⟨n.text, g n.offset⟩

mutual

/-- An expression whose parts are at other places. -/
def Expr.move (g : Nat → Nat) : Expr → Expr
  | .number text => .number text
  | .str value => .str value
  | .name n => .name (n.move g)
  | .neg operand => .neg (operand.move g)
  | .binary op lhs rhs => .binary op (lhs.move g) (rhs.move g)
  | .call callee args => .call (callee.move g) (Expr.moveAll g args)
  | .paren inner => .paren (inner.move g)

/-- Expressions whose parts are at other places. -/
def Expr.moveAll (g : Nat → Nat) : List Expr → List Expr
  | [] => []
  | e :: es => e.move g :: Expr.moveAll g es

end

theorem Expr.moveAll_eq (g : Nat → Nat) (es : List Expr) :
    Expr.moveAll g es = es.map (Expr.move g) := by
  induction es with
  | nil => rfl
  | cons e es ih => rw [Expr.moveAll, ih, List.map_cons]

/-- A statement whose parts are at other places. -/
def Stmt.move (g : Nat → Nat) : Stmt → Stmt
  | .imports binding specifier offset => .imports (binding.move g) specifier (g offset)
  | .declares name => .declares (name.move g)
  | .variable isExported kind name value =>
    .variable isExported kind (name.move g) (value.map (Expr.move g))
  | .assign target op value => .assign (target.move g) op (value.move g)
  | .expr e => .expr (e.move g)

/-- The lexeme at another place. -/
def Lexeme.move (g : Nat → Nat) (l : Lexeme) : Lexeme := { l with offset := g l.offset }

/-- The same fault of a text whose parts are at other places. -/
def ParseFault.move (g : Nat → Nat) : ParseFault → ParseFault
  | .uninitialized name => .uninitialized (name.move g)
  | fault => fault

/-- The same fault of a text whose parts are at other places. -/
def SyntaxFault.move (g : Nat → Nat) : SyntaxFault → SyntaxFault
  | .parse fault => .parse (fault.move g)
  | .lexical fault => .lexical fault

/-- The same error at another place. -/
def SyntaxError.move (g : Nat → Nat) (e : SyntaxError) : SyntaxError := ⟨g e.offset, e.fault.move g⟩

/-- A module whose parts are at other places. -/
def SyntaxTree.move (g : Nat → Nat) (t : SyntaxTree) : SyntaxTree :=
  ⟨t.statements.map (Stmt.move g), t.errors.map (SyntaxError.move g)⟩

@[simp] theorem Expr.move_id (e : Expr) : e.move id = e := by
  induction e with
  | neg operand ih => rw [Expr.move, ih]
  | binary op lhs rhs hlhs hrhs => rw [Expr.move, hlhs, hrhs]
  | call callee args ih =>
      rw [Expr.move, Expr.moveAll_eq, List.map_congr_left ih, List.map_id']
      rfl
  | paren inner ih => rw [Expr.move, ih]
  | _ => rfl

@[simp] theorem Stmt.move_id (s : Stmt) : s.move id = s := by
  cases s with
  | «variable» isExported kind name value =>
      rw [Stmt.move, Option.map_congr fun e _ ↦ e.move_id, Option.map_id']
      rfl
  | assign target op value =>
      rw [Stmt.move, Expr.move_id]
      rfl
  | expr e => rw [Stmt.move, Expr.move_id]
  | _ => rfl

@[simp] theorem SyntaxError.move_id (e : SyntaxError) : e.move id = e := by
  obtain ⟨offset, fault⟩ := e
  cases fault with
  | lexical fault => rfl
  | parse fault => cases fault <;> rfl

@[simp] theorem SyntaxTree.move_id (t : SyntaxTree) : t.move id = t := by
  have hstatements : Stmt.move id = id := funext Stmt.move_id
  have herrors : SyntaxError.move id = id := funext SyntaxError.move_id
  rw [SyntaxTree.move, hstatements, herrors, List.map_id, List.map_id]

/-- An error has the same code and message wherever it is. -/
@[simp] theorem SyntaxFault.code_move (g : Nat → Nat) (fault : SyntaxFault) :
    (fault.move g).code = fault.code := by
  cases fault with
  | lexical fault => rfl
  | parse fault => cases fault <;> rfl

@[simp] theorem SyntaxFault.message_move (g : Nat → Nat) (fault : SyntaxFault) :
    (fault.move g).message = fault.message := by
  cases fault with
  | lexical fault => rfl
  | parse fault => cases fault <;> rfl

/-- Whether lexemes are as good as the end to a parser: there are none, or they start with a
semicolon on a line of its own. -/
inductive Shuts : List Lexeme → Prop
  | nil : Shuts []
  | semicolon (offset : Nat) (rest : List Lexeme) : Shuts (⟨.semicolon, offset, true⟩ :: rest)

/-- Lexemes at other places, with some behind them. -/
def moved (g : Nat → Nat) (behind ls : List Lexeme) : List Lexeme :=
  ls.map (Lexeme.move g) ++ behind

/-- What a parser comes to where the lexemes are at other places and have some behind them. -/
def Outcome.move (f : α → α) (g : Nat → Nat) (behind : List Lexeme) : Outcome α → Outcome α
  | .parsed a rest => .parsed (f a) (moved g behind rest)
  | .failed fault rest => .failed (fault.move g) (moved g behind rest)

section Moved

variable {g : Nat → Nat} {behind : List Lexeme}

@[simp] theorem moved_nil : moved g behind [] = behind := rfl

@[simp] theorem moved_cons (t : Token) (offset : Nat) (newline : Bool) (ls : List Lexeme) :
    moved g behind (⟨t, offset, newline⟩ :: ls) = ⟨t, g offset, newline⟩ :: moved g behind ls := rfl

@[simp] theorem length_moved (ls : List Lexeme) :
    (moved g behind ls).length = ls.length + behind.length := by
  simp [moved]

@[simp] theorem Outcome.move_parsed (f : α → α) (a : α) (rest : List Lexeme) :
    (Outcome.parsed a rest).move f g behind = .parsed (f a) (moved g behind rest) := rfl

@[simp] theorem Outcome.move_failed (f : α → α) (fault : ParseFault) (rest : List Lexeme) :
    (Outcome.failed fault rest).move f g behind = .failed (fault.move g) (moved g behind rest) :=
  rfl

end Moved

namespace Parser

/-- Whether a parser comes to the same as another one when the lexemes are at other places and have
some behind them, at most `bound` lexemes being ahead. -/
def Carries (g : Nat → Nat) (behind : List Lexeme) (f : α → α) (bound : Nat) (p p' : Parser α) :
    Prop :=
  ∀ ls, ls.length ≤ bound → p' (moved g behind ls) = (p ls).move f g behind

variable {g : Nat → Nat} {behind : List Lexeme} {bound : Nat}

namespace Carries

theorem pure (f : α → α) (a : α) :
    Carries g behind f bound (Pure.pure a : Parser α) (Pure.pure (f a) : Parser α) :=
  fun _ _ ↦ rfl

theorem bind {f : α → α} {f' : β → β} {p p' : Parser α} {next next' : α → Parser β}
    (hp : Carries g behind f bound p p') (hleaves : Leaves p)
    (hnext : ∀ a, Carries g behind f' bound (next a) (next' (f a))) :
    Carries g behind f' bound (p >>= next) (p' >>= next') := by
  intro ls hls
  show Parser.bind p' next' (moved g behind ls) = (Parser.bind p next ls).move f' g behind
  rw [Parser.bind, Parser.bind, hp ls hls]
  have hrest := hleaves ls
  cases hread : p ls with
  | parsed a rest =>
      rw [hread] at hrest
      exact hnext a rest (Nat.le_trans hrest.length_le hls)
  | failed fault rest => rfl

theorem map {f : α → α} {f' : β → β} {p p' : Parser α} {h h' : α → β}
    (hp : Carries g behind f bound p p') (hleaves : Leaves p) (hh : ∀ a, h' (f a) = f' (h a)) :
    Carries g behind f' bound (h <$> p) (h' <$> p') := by
  refine bind hp hleaves fun a ↦ ?_
  intro ls _
  show Outcome.parsed (h' (f a)) _ = .parsed (f' (h a)) _
  rw [hh]

end Carries

/-! ## Expressions -/

section Expressions

variable {op? : Token → Option BinaryOp} {operand operand' expr expr' : Parser Expr}

/-- A chain ends before what is as good as the end. -/
theorem chainRest_of_shuts (hop : op? .semicolon = none) (hbehind : Shuts behind) (n : Nat)
    (lhs : Expr) : chainRest op? operand n lhs behind = .parsed lhs behind := by
  cases n with
  | zero => rfl
  | succ n =>
      cases hbehind with
      | nil => rfl
      | semicolon offset rest => rw [chainRest, hop]

theorem carries_chainRest (hop : op? .semicolon = none) (hbehind : Shuts behind)
    (hoperand : Carries g behind (Expr.move g) bound operand operand') (hleaves : Leaves operand)
    {n n' : Nat} (lhs : Expr) {ls : List Lexeme} (hn : ls.length ≤ n) (hbound : ls.length ≤ bound)
    (hn' : ls.length + behind.length ≤ n') :
    chainRest op? operand' n' (lhs.move g) (moved g behind ls) =
      (chainRest op? operand n lhs ls).move (Expr.move g) g behind := by
  induction n generalizing n' lhs ls with
  | zero =>
      obtain rfl : ls = [] := List.length_eq_zero_iff.mp (Nat.le_zero.mp hn)
      exact chainRest_of_shuts hop hbehind n' _
  | succ n ih =>
      cases ls with
      | nil => exact chainRest_of_shuts hop hbehind n' _
      | cons l ls =>
          obtain ⟨t, offset, newline⟩ := l
          simp only [List.length_cons] at hn hbound hn'
          obtain ⟨n', rfl⟩ : ∃ m, n' = m + 1 := ⟨n' - 1, by omega⟩
          rw [moved_cons, chainRest, chainRest]
          cases op? t with
          | none => rfl
          | some op =>
              dsimp only
              rw [hoperand ls (by omega)]
              have hrest := hleaves ls
              cases hread : operand ls with
              | failed fault rest => rfl
              | parsed rhs rest =>
                  rw [hread] at hrest
                  have hle := List.IsSuffix.length_le hrest
                  exact ih (.binary op lhs rhs) (by omega) (by omega) (by omega)

theorem carries_chain (hop : op? .semicolon = none) (hbehind : Shuts behind)
    (hoperand : Carries g behind (Expr.move g) bound operand operand') (hleaves : Leaves operand)
    {n n' : Nat} (hn : bound ≤ n) (hn' : bound + behind.length ≤ n') :
    Carries g behind (Expr.move g) bound (chain n op? operand) (chain n' op? operand') := by
  refine .bind hoperand hleaves fun lhs ↦ ?_
  intro ls hls
  exact carries_chainRest hop hbehind hoperand hleaves lhs (by omega) hls (by omega)

theorem carries_signed (hbehind : Shuts behind)
    (hoperand : Carries g behind (Expr.move g) bound operand operand') :
    Carries g behind (Expr.move g) bound (signed operand) (signed operand') := by
  intro ls hls
  induction ls with
  | nil =>
      have hend : signed operand' behind = operand' behind := by cases hbehind <;> rfl
      exact hend.trans (hoperand [] hls)
  | cons l ls ih =>
      have hself := hoperand (l :: ls) hls
      obtain ⟨t, offset, newline⟩ := l
      rw [moved_cons] at hself ⊢
      rw [signed, signed]
      by_cases ht : t = .operator .sub
      · rw [if_pos ht, if_pos ht, ih (Nat.le_of_succ_le hls)]
        cases signed operand ls with
        | parsed e rest => rfl
        | failed fault rest => rfl
      · rw [if_neg ht, if_neg ht, hself]

theorem carries_argumentsRest (hbehind : Shuts behind)
    (hexpr : Carries g behind (Expr.move g) bound expr expr') (hleaves : Leaves expr)
    (hend : expr [] = .failed .expressionExpected []) {n n' : Nat} (known : List Expr)
    {ls : List Lexeme} (hn : ls.length ≤ n) (hbound : ls.length ≤ bound)
    (hn' : ls.length + behind.length ≤ n') :
    argumentsRest expr' n' (known.map (Expr.move g)) (moved g behind ls) =
      (argumentsRest expr n known ls).move (List.map (Expr.move g)) g behind := by
  induction n generalizing n' known ls with
  | zero =>
      obtain rfl : ls = [] := List.length_eq_zero_iff.mp (Nat.le_zero.mp hn)
      cases n' with
      | zero => rfl
      | succ n' =>
          rw [argumentsRest, argumentsRest, hexpr [] hbound, hend]
          rfl
  | succ n ih =>
      have hread' := hexpr ls hbound
      have hrest := hleaves ls
      cases n' with
      | zero =>
          obtain rfl : ls = [] := List.length_eq_zero_iff.mp (by omega)
          rw [argumentsRest, argumentsRest, hend]
          rfl
      | succ n' =>
          rw [argumentsRest, argumentsRest, hread']
          cases hread : expr ls with
          | failed fault rest => rfl
          | parsed e rest =>
              rw [hread] at hrest
              have hle := List.IsSuffix.length_le hrest
              cases rest with
              | nil => cases hbehind <;> rfl
              | cons l rest =>
                  obtain ⟨t, offset, newline⟩ := l
                  rw [List.length_cons] at hle
                  cases t with
                  | comma => exact ih (e :: known) (by omega) (by omega) (by omega)
                  | rightParen => simp [List.map_reverse]
                  | _ => rfl

theorem carries_arguments (hbehind : Shuts behind)
    (hexpr : Carries g behind (Expr.move g) bound expr expr') (hleaves : Leaves expr)
    (hend : expr [] = .failed .expressionExpected []) {n n' : Nat} (hn : bound ≤ n)
    (hn' : bound + behind.length ≤ n') :
    Carries g behind (List.map (Expr.move g)) bound (arguments n expr) (arguments n' expr') := by
  intro ls hls
  have hle : ls.length + behind.length ≤ n' := by omega
  have hargs := carries_argumentsRest hbehind hexpr hleaves hend [] (Nat.le_trans hls hn) hls hle
  cases ls with
  | nil => cases hbehind <;> exact hargs
  | cons l ls =>
      obtain ⟨t, offset, newline⟩ := l
      cases t with
      | rightParen => rfl
      | _ => exact hargs

theorem carries_expect (t : Token) (ht : t ≠ .semicolon) (mark : String) (hbehind : Shuts behind) :
    Carries g behind id bound (expect t mark) (expect t mark) := by
  intro ls _
  cases ls with
  | nil =>
      cases hbehind with
      | nil => rfl
      | semicolon offset rest => simp [expect, ht.symm, ParseFault.move]
  | cons l ls =>
      obtain ⟨t', offset, newline⟩ := l
      rw [moved_cons, expect, expect]
      by_cases h : t' = t
      · rw [if_pos h, if_pos h]
        rfl
      · rw [if_neg h, if_neg h]
        rfl

theorem carries_operand (hbehind : Shuts behind)
    (hexpr : Carries g behind (Expr.move g) bound expr expr') (hleaves : Leaves expr)
    (hend : expr [] = .failed .expressionExpected []) {n n' : Nat} (hn : bound ≤ n)
    (hn' : bound + behind.length ≤ n') :
    Carries g behind (Expr.move g) (bound + 1) (Parser.operand n expr)
      (Parser.operand n' expr') := by
  intro ls hls
  cases ls with
  | nil => cases hbehind <;> rfl
  | cons l ls =>
      obtain ⟨t, offset, newline⟩ := l
      have hle : ls.length ≤ bound := Nat.le_of_succ_le_succ hls
      cases t with
      | ident text =>
          cases ls with
          | nil => cases hbehind <;> rfl
          | cons l ls =>
              obtain ⟨t, offset', newline'⟩ := l
              cases t with
              | leftParen =>
                  cases newline' with
                  | true => rfl
                  | false =>
                      have hargs := carries_arguments hbehind hexpr hleaves hend hn hn'
                      refine Carries.map (h := Expr.call ⟨text, offset⟩) hargs
                        (leaves_arguments hleaves n) (fun args ↦ ?_) ls (Nat.le_of_succ_le hle)
                      rw [Expr.move, Expr.moveAll_eq]
                      rfl
              | _ => rfl
      | leftParen =>
          refine Carries.bind hexpr hleaves (fun e ↦ ?_) ls hle
          refine .bind (carries_expect .rightParen nofun _ hbehind) (leaves_expect _ (.head _))
            fun _ ↦ ?_
          exact .pure _ _
      | _ => rfl

/-- There is no expression before what is as good as the end. -/
theorem expr_of_shuts (hbehind : Shuts behind) (n : Nat) :
    Parser.expr n behind = .failed .expressionExpected behind := by
  cases n with
  | zero => rfl
  | succ n => cases hbehind <;> rfl

theorem carries_expr (hbehind : Shuts behind) {n n' : Nat} (hn : bound ≤ n)
    (hn' : bound + behind.length ≤ n') :
    Carries g behind (Expr.move g) bound (Parser.expr n) (Parser.expr n') := by
  induction bound generalizing n n' with
  | zero =>
      intro ls hls
      obtain rfl : ls = [] := List.length_eq_zero_iff.mp (Nat.le_zero.mp hls)
      rw [expr_of_shuts .nil n]
      exact expr_of_shuts hbehind n'
  | succ bound ih =>
      obtain ⟨n, rfl⟩ : ∃ m, n = m + 1 := ⟨n - 1, by omega⟩
      obtain ⟨n', rfl⟩ : ∃ m, n' = m + 1 := ⟨n' - 1, by omega⟩
      have hle : bound ≤ n := Nat.le_of_succ_le_succ hn
      have hle' : bound + behind.length ≤ n' := by omega
      have hoperand := carries_operand hbehind (ih hle hle') (leaves_expr n)
        (expr_of_shuts .nil n) hle hle'
      have hleaves := leaves_signed (leaves_operand (leaves_expr n) n)
      have hproduct := carries_chain (show productOp? .semicolon = none from rfl) hbehind
        (carries_signed hbehind hoperand) hleaves hn hn'
      exact carries_chain rfl hbehind hproduct (leaves_chain hleaves _) hn hn'

end Expressions

/-! ## Statements -/

section Statements

variable {n n' : Nat}

theorem carries_name (hbehind : Shuts behind) :
    Carries g behind (Name.move g) bound name name := by
  intro ls _
  cases ls with
  | nil => cases hbehind <;> rfl
  | cons l ls =>
      obtain ⟨t, offset, newline⟩ := l
      cases t <;> rfl

theorem carries_variableKind (hbehind : Shuts behind) :
    Carries g behind id bound variableKind variableKind := by
  intro ls _
  cases ls with
  | nil => cases hbehind <;> rfl
  | cons l ls =>
      obtain ⟨t, offset, newline⟩ := l
      cases t with
      | keyword word => cases word <;> rfl
      | _ => rfl

theorem carries_initialValue (hbehind : Shuts behind) (hn : bound ≤ n)
    (hn' : bound + behind.length ≤ n') :
    Carries g behind (Option.map (Expr.move g)) bound (initialValue n) (initialValue n') := by
  intro ls hls
  cases ls with
  | nil => cases hbehind <;> rfl
  | cons l ls =>
      obtain ⟨t, offset, newline⟩ := l
      cases t with
      | assign op =>
          cases op with
          | plain =>
              have hvalue : Carries g behind (Option.map (Expr.move g)) bound
                  (some <$> Parser.expr n) (some <$> Parser.expr n') :=
                .map (carries_expr hbehind hn hn') (leaves_expr n) fun _ ↦ rfl
              exact hvalue ls (Nat.le_of_succ_le hls)
          | compound op => rfl
      | _ => rfl

theorem carries_needsValue (kind : VariableKind) (name : Name) (value : Option Expr) :
    Carries g behind id bound (needsValue kind name value)
      (needsValue kind (name.move g) (value.map (Expr.move g))) := by
  intro ls _
  cases kind <;> cases value <;> rfl

theorem carries_variableStmt (hbehind : Shuts behind) (isExported : Bool)
    (hn : bound ≤ n) (hn' : bound + behind.length ≤ n') :
    Carries g behind (Stmt.move g) bound (variableStmt n isExported)
      (variableStmt n' isExported) := by
  refine .bind (carries_variableKind hbehind) leaves_variableKind fun kind ↦ ?_
  refine .bind (carries_name hbehind) leaves_name fun name ↦ ?_
  refine .bind (carries_initialValue hbehind hn hn') (leaves_initialValue n) fun value ↦ ?_
  refine .bind (carries_needsValue kind name value) (leaves_needsValue _ _ _) fun _ ↦ ?_
  exact .pure _ (Stmt.variable isExported kind name value)

theorem carries_importSpecifier (hbehind : Shuts behind) (binding : Name) :
    Carries g behind (Stmt.move g) bound (importSpecifier binding)
      (importSpecifier (binding.move g)) := by
  intro ls _
  cases ls with
  | nil => cases hbehind <;> rfl
  | cons l ls =>
      obtain ⟨t, offset, newline⟩ := l
      cases t <;> rfl

theorem carries_importStmt (hbehind : Shuts behind) :
    Carries g behind (Stmt.move g) bound importStmt importStmt := by
  refine .bind (carries_name hbehind) leaves_name fun binding ↦ ?_
  refine .bind (carries_expect (.keyword .fromWord) nofun _ hbehind)
    (leaves_expect _ (.tail _ (.tail _ (.head _)))) fun _ ↦ ?_
  exact carries_importSpecifier hbehind binding

/-- Whatever a statement starts with that is neither a keyword nor assigned to is an expression. -/
theorem carries_statementBody (hbehind : Shuts behind) (hn : bound ≤ n)
    (hn' : bound + behind.length ≤ n') :
    Carries g behind (Stmt.move g) bound (statementBody n) (statementBody n') := by
  intro ls hls
  have hexpr : Carries g behind (Stmt.move g) bound (Stmt.expr <$> Parser.expr n)
      (Stmt.expr <$> Parser.expr n') :=
    .map (carries_expr hbehind hn hn') (leaves_expr n) fun _ ↦ rfl
  cases ls with
  | nil => cases hbehind <;> exact hexpr [] hls
  | cons l ls =>
      have hself := hexpr (l :: ls) hls
      have hle : ls.length ≤ bound := Nat.le_of_succ_le hls
      obtain ⟨t, offset, newline⟩ := l
      cases t with
      | keyword word =>
          cases word with
          | importWord => exact carries_importStmt hbehind ls hle
          | declareWord =>
              have hname : Carries g behind (Stmt.move g) bound (Stmt.declares <$> name)
                  (Stmt.declares <$> name) :=
                .map (carries_name hbehind) leaves_name fun _ ↦ rfl
              exact hname ls hle
          | exportWord => exact carries_variableStmt hbehind true hn hn' ls hle
          | letWord => exact carries_variableStmt hbehind false hn hn' _ hls
          | constWord => exact carries_variableStmt hbehind false hn hn' _ hls
          | fromWord => exact hself
      | ident text =>
          cases ls with
          | nil => cases hbehind <;> exact hself
          | cons l ls =>
              obtain ⟨t, offset', newline'⟩ := l
              cases t with
              | assign op =>
                  exact Carries.map (h := Stmt.assign ⟨text, offset⟩ op)
                    (carries_expr hbehind hn hn') (leaves_expr n) (fun _ ↦ rfl) ls
                    (Nat.le_of_succ_le hle)
              | _ => exact hself
      | _ => exact hself

theorem statementEnd_moved (l : Lexeme) (rest : List Lexeme) :
    statementEnd (moved g behind (l :: rest)) = (statementEnd (l :: rest)).move id g behind := by
  obtain ⟨t, offset, newline⟩ := l
  rw [moved_cons, statementEnd, statementEnd]
  by_cases ht : t = .semicolon
  · rw [if_pos ht, if_pos ht]
    rfl
  · rw [if_neg ht, if_neg ht]
    cases newline <;> rfl

/-- A statement is read from moved lexemes as from those as they are.  If it ends with the last of
them, then a semicolon behind them is taken for its end. -/
theorem statement_moved (hbehind : Shuts behind) (hn : bound ≤ n)
    (hn' : bound + behind.length ≤ n') (ls : List Lexeme) (hls : ls.length ≤ bound) :
    statement n' (moved g behind ls) = (statement n ls).move (Stmt.move g) g behind ∨
      ∃ s, statement n ls = .parsed s [] ∧
        statement n' (moved g behind ls) = .parsed (s.move g) behind.tail := by
  have hbody := carries_statementBody (g := g) hbehind hn hn' ls hls
  have hbind (n : Nat) (ls : List Lexeme) : statement n ls =
      Parser.bind (statementBody n) (fun s ↦ statementEnd >>= fun _ ↦ pure s) ls := rfl
  rw [hbind, hbind, Parser.bind, Parser.bind, hbody]
  cases statementBody n ls with
  | failed fault rest => exact .inl rfl
  | parsed s rest =>
      cases rest with
      | nil =>
          refine .inr ⟨s, rfl, ?_⟩
          cases hbehind <;> rfl
      | cons l rest =>
          left
          show Parser.bind statementEnd (fun _ ↦ pure (s.move g)) (moved g behind (l :: rest)) =
            (Parser.bind statementEnd (fun _ ↦ pure s) (l :: rest)).move (Stmt.move g) g behind
          rw [Parser.bind, Parser.bind, statementEnd_moved]
          cases statementEnd (l :: rest) <;> rfl

end Statements

end Parser

end PipedCompiler.Language
