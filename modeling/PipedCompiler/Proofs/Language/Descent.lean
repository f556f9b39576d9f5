import PipedCompiler.Proofs.Language.Cursor

/-!
# Readers for statements

One reader for each form of expressions and statements, which calls the others as the grammar does
and goes on as long as something follows.  Each of them comes to what the parser of that form does.
-/

namespace PipedCompiler.Language

namespace Reader

/-! ## Readers -/

/-- Whether something is a sum or a product. -/
inductive Rank where
  | sum
  | product
  deriving Repr, DecidableEq

/-- The operators of a rank. -/
def Rank.op? : Rank → Token → Option BinaryOp
  | .sum => Parser.sumOp?
  | .product => Parser.productOp?

section Slots

variable (slots : List Slot)

/-- Takes the expected token; `mark` is its name in the fault. -/
def expect (token : Token) (mark : String) : Reader Unit := do
  if (← current slots).token? = some token then
    take slots
  else stop slots (.expected mark)

/-- Takes an identifier. -/
def name : Reader Name := do
  let slot ← current slots
  match slot.token? with
  | some (.ident text) =>
    take slots
    return ⟨text, slot.offset⟩
  | _ => stop slots .identifierExpected

mutual

/-- A sum or a product. -/
def chain : (depth : Nat) → Rank → Reader Expr
  | 0, _ => nothing
  | depth + 1, rank => do
    let lhs ← link depth rank
    chainRest depth rank lhs

/-- What stands between operators. -/
def link : (depth : Nat) → Rank → Reader Expr
  | 0, _ => nothing
  | depth + 1, .sum => chain depth .product
  | depth + 1, .product => signed depth

/-- Extends the left operand by operators and further operands, as long as they follow. -/
def chainRest : (depth : Nat) → Rank → Expr → Reader Expr
  | 0, _, _ => nothing
  | depth + 1, rank, lhs => do
    match (← current slots).token?.bind rank.op? with
    | none => return lhs
    | some op =>
      take slots
      let rhs ← link depth rank
      chainRest depth rank (.binary op lhs rhs)

/-- An operand with any number of signs before it. -/
def signed : (depth : Nat) → Reader Expr
  | 0 => nothing
  | depth + 1 => do
    if (← current slots).token? = some (.operator .sub) then
      take slots
      return .neg (← signed depth)
    else operand depth

/-- A literal, a name, a call or an expression in parentheses. -/
def operand : (depth : Nat) → Reader Expr
  | 0 => nothing
  | depth + 1 => do
    match (← current slots).token? with
    | some (.number text) =>
      take slots
      return .number text
    | some (.str value) =>
      take slots
      return .str value
    | some (.ident _) =>
      let callee ← name slots
      let behind ← current slots
      if behind.token? = some .leftParen ∧ behind.newlineBefore = false then
        take slots
        return .call callee (← arguments depth)
      else return .name callee
    | some .leftParen =>
      take slots
      let inner ← chain depth .sum
      expect slots .rightParen ")"
      return .paren inner
    | _ => stop slots .expressionExpected

/-- The arguments of a call, after its parenthesis. -/
def arguments : (depth : Nat) → Reader (List Expr)
  | 0 => nothing
  | depth + 1 => do
    if (← current slots).token? = some .rightParen then
      take slots
      return []
    else argumentsRest depth []

/-- The arguments of a call from an argument on, after some that are known, in reverse. -/
def argumentsRest : (depth : Nat) → List Expr → Reader (List Expr)
  | 0, _ => nothing
  | depth + 1, known => do
    let argument ← chain depth .sum
    if (← current slots).token? = some .comma then
      take slots
      argumentsRest depth (argument :: known)
    else
      expect slots .rightParen ")"
      return (argument :: known).reverse

end

/-- The keyword that introduces a variable, if there is one. -/
def variableKind : Reader VariableKind := do
  match (← current slots).token? with
  | some (.keyword .letWord) =>
    take slots
    return .letWord
  | some (.keyword .constWord) =>
    take slots
    return .constWord
  | _ => return .bare

/-- The value that a variable starts with, if it has one. -/
def initialValue (depth : Nat) : Reader (Option Expr) := do
  if (← current slots).token? = some (.assign .plain) then
    take slots
    return some (← chain slots depth .sum)
  else return none

/-- Only variables introduced by `let` may lack a value. -/
def needsValue (kind : VariableKind) (name : Name) (value : Option Expr) : Reader Unit :=
  match kind, value with
  | .constWord, none => throw ⟨name.offset, .parse (.uninitialized name)⟩
  | .bare, none => stop slots (.expected "=")
  | _, _ => return ()

/-- A variable. -/
def variableStmt (depth : Nat) (isExported : Bool) : Reader Stmt := do
  let kind ← variableKind slots
  let name ← name slots
  let value ← initialValue slots depth
  needsValue slots kind name value
  return .variable isExported kind name value

/-- The module that an import names. -/
def importSpecifier (binding : Name) : Reader Stmt := do
  let slot ← current slots
  match slot.token? with
  | some (.str specifier) =>
    take slots
    return .imports binding specifier slot.offset
  | _ => stop slots .stringExpected

/-- An import. -/
def importStmt : Reader Stmt := do
  expect slots (.keyword .importWord) "import"
  let binding ← name slots
  expect slots (.keyword .fromWord) "from"
  importSpecifier slots binding

/-- An assignment. -/
def assignment (depth : Nat) (op : AssignOp) : Reader Stmt := do
  let target ← name slots
  take slots
  return .assign target op (← chain slots depth .sum)

/-- A statement without its end.  Whether it is an assignment is told by its second token. -/
def statementBody (depth : Nat) : Reader Stmt := do
  match (← current slots).token?, (← following slots).token? with
  | some (.keyword .importWord), _ => importStmt slots
  | some (.keyword .declareWord), _ =>
    take slots
    return .declares (← name slots)
  | some (.keyword .exportWord), _ =>
    take slots
    variableStmt slots depth true
  | some (.keyword .letWord), _ => variableStmt slots depth false
  | some (.keyword .constWord), _ => variableStmt slots depth false
  | some (.ident _), some (.assign op) => assignment slots depth op
  | _, _ => return .expr (← chain slots depth .sum)

/-- The end of a statement. -/
def statementEnd : Reader Unit := do
  let slot ← current slots
  if slot.token? = some .semicolon then
    take slots
  else if slot.token? = none ∨ slot.newlineBefore = true then
    return ()
  else stop slots (.expected ";")

/-- A statement. -/
def statement (depth : Nat) : Reader Stmt := do
  let s ← statementBody slots depth
  statementEnd slots
  return s

end Slots

/-! ## Agreement -/

variable {s : Scan} {n k : Nat}

theorem comesTo_expect (t : Token) (mark : String) (ls : List Lexeme) (hls : ls <:+ s.lexemes) :
    ComesTo s (expect s.slots t mark) ls (Parser.expect t mark ls) := by
  refine (comesTo_current hls).bind ?_
  cases ls with
  | nil => exact comesTo_stop hls trivial
  | cons l ls =>
      by_cases ht : l.token = t
      · rw [Parser.expect, if_pos ht, if_pos (Scan.token?_slotAt_cons.mpr ht)]
        exact comesTo_take hls
      · rw [Parser.expect, if_neg ht, if_neg (ht ∘ Scan.token?_slotAt_cons.mp)]
        exact comesTo_stop hls trivial

theorem comesTo_name (ls : List Lexeme) (hls : ls <:+ s.lexemes) :
    ComesTo s (name s.slots) ls (Parser.name ls) := by
  refine (comesTo_current hls).bind ?_
  cases ls with
  | nil => exact comesTo_stop hls trivial
  | cons l ls =>
      obtain ⟨t, offset, newline⟩ := l
      cases t with
      | ident text => exact (comesTo_take hls).bind rfl
      | _ => exact comesTo_stop hls trivial

theorem agrees_expect (t : Token) (mark : String) :
    Agrees s n k (fun _ ↦ expect s.slots t mark) (Parser.expect t mark) :=
  .of_comesTo (comesTo_expect t mark)

theorem agrees_name : Agrees s n k (fun _ ↦ name s.slots) Parser.name :=
  .of_comesTo comesTo_name

/-! ### Expressions -/

/-- Something is taken with each further operand, so that one is read less deep. -/
theorem agrees_chainRest {rank : Rank} {operand : Parser Expr} {m : Nat} (hk : k ≤ 6)
    (hlink : Agrees s m k (link s.slots · rank) operand) (hleaves : Parser.Leaves operand)
    (hm : n ≤ m) (lhs : Expr) :
    Agrees s n 1 (chainRest s.slots · rank lhs) (Parser.chainRest rank.op? operand n lhs) := by
  refine .succ fun ls hls hn depth hdepth ↦ ?_
  dsimp only
  rw [chainRest]
  induction n generalizing lhs ls depth with
  | zero =>
      obtain rfl : ls = [] := List.length_eq_zero_iff.mp (Nat.le_zero.mp hn)
      exact (comesTo_current hls).bind rfl
  | succ n ih =>
      refine (comesTo_current hls).bind ?_
      cases ls with
      | nil => rfl
      | cons l ls =>
          have hrest := (List.suffix_cons l ls).trans hls
          rw [List.length_cons] at hn hdepth
          have hfirst := hlink ls hrest (by omega) depth (by omega)
          have hleft := hleaves ls
          rw [Parser.chainRest]
          show ComesTo s (match rank.op? l.token with | none => _ | some op => _) _ _
          cases rank.op? l.token with
          | none => rfl
          | some op =>
              refine (comesTo_take hls).bind ?_
              dsimp only
              refine hfirst.bind_cases (fun rhs rest hread ↦ ?_) fun fault rest hread ↦ by rw [hread]
              rw [hread] at hleft ⊢
              have hle := List.IsSuffix.length_le hleft
              obtain ⟨depth, rfl⟩ : ∃ d, depth = d + 1 := Nat.exists_eq_succ_of_ne_zero (by omega)
              rw [chainRest]
              exact ih (by omega) _ rest (List.IsSuffix.trans hleft hrest) (by omega) depth
                (by omega)

theorem agrees_signed {operand : Parser Expr}
    (hoperand : Agrees s n 1 (Reader.operand s.slots) operand) :
    Agrees s n 2 (signed s.slots) (Parser.signed operand) := by
  refine .succ fun ls hls hn depth hdepth ↦ ?_
  dsimp only
  rw [signed]
  induction ls generalizing depth with
  | nil => exact (comesTo_current hls).bind (hoperand [] hls hn depth hdepth)
  | cons l ls ih =>
      refine (comesTo_current hls).bind ?_
      rw [Parser.signed]
      by_cases hsign : l.token = .operator .sub
      · rw [if_pos hsign, if_pos (Scan.token?_slotAt_cons.mpr hsign)]
        refine (comesTo_take hls).bind ?_
        rw [List.length_cons] at hdepth
        obtain ⟨depth, rfl⟩ : ∃ d, depth = d + 1 := Nat.exists_eq_succ_of_ne_zero (by omega)
        rw [signed]
        have hsigned := ih ((List.suffix_cons l ls).trans hls) (Nat.le_of_succ_le hn) depth
          (by omega)
        exact hsigned.bind_cases (fun e rest hread ↦ by rw [hread]; rfl)
          fun fault rest hread ↦ by rw [hread]
      · rw [if_neg hsign, if_neg (hsign ∘ Scan.token?_slotAt_cons.mp)]
        exact hoperand _ hls hn depth hdepth

theorem agrees_chain {operand : Parser Expr}
    (hoperand : Agrees s n 1 (Reader.operand s.slots) operand) (hleaves : Parser.Leaves operand) :
    Agrees s n 6 (chain s.slots · .sum) (Parser.chain n Parser.sumOp?
      (Parser.chain n Parser.productOp? (Parser.signed operand))) := by
  have hsigned : Agrees s n 3 (link s.slots · .product) (Parser.signed operand) :=
    .succ (agrees_signed hoperand)
  have hsigns := Parser.leaves_signed hleaves
  have hproduct : Agrees s n 5 (link s.slots · .sum)
      (Parser.chain n Parser.productOp? (Parser.signed operand)) := by
    refine .succ (.succ (hsigned.bind hsigns fun lhs ↦ ?_))
    exact (agrees_chainRest (by omega) hsigned hsigns (Nat.le_refl n) lhs).mono (by omega)
  have hproducts : Parser.Leaves (Parser.chain n Parser.productOp? (Parser.signed operand)) :=
    Parser.leaves_chain hsigns n
  refine .succ (hproduct.bind hproducts fun lhs ↦ ?_)
  exact (agrees_chainRest (by omega) hproduct hproducts (Nat.le_refl n) lhs).mono (by omega)

section Arguments

variable {expr : Parser Expr} (hexpr : Agrees s n 6 (chain s.slots · .sum) expr)
  (hleaves : Parser.Leaves expr) (hnil : expr [] = .failed .expressionExpected [])

include hexpr hleaves hnil

theorem agrees_argumentsRest {m : Nat} (hm : m ≤ n) (known : List Expr) :
    Agrees s m 7 (argumentsRest s.slots · known) (Parser.argumentsRest expr m known) := by
  refine .succ fun ls hls hlength depth hdepth ↦ ?_
  dsimp only
  rw [argumentsRest]
  have hfirst := hexpr ls hls (Nat.le_trans hlength hm) depth hdepth
  induction m generalizing known ls depth with
  | zero =>
      obtain rfl : ls = [] := List.length_eq_zero_iff.mp (Nat.le_zero.mp hlength)
      rw [hnil] at hfirst
      exact hfirst.bind_failed _
  | succ m ih =>
      have hleft := hleaves ls
      rw [Parser.argumentsRest]
      refine hfirst.bind_cases (fun e rest hread ↦ ?_) fun fault rest hread ↦ by rw [hread]
      rw [hread] at hleft ⊢
      have hrest := List.IsSuffix.trans hleft hls
      have hle := List.IsSuffix.length_le hleft
      have hexpect := comesTo_expect .rightParen ")" rest hrest
      refine (comesTo_current hrest).bind ?_
      cases rest with
      | nil => exact hexpect.bind_failed _
      | cons l rest =>
          obtain ⟨t, offset, newline⟩ := l
          cases t with
          | comma =>
              rw [List.length_cons] at hle
              have hrest' := (List.suffix_cons _ _).trans hrest
              refine (comesTo_take hrest).bind ?_
              obtain ⟨depth, rfl⟩ : ∃ d, depth = d + 1 := Nat.exists_eq_succ_of_ne_zero (by omega)
              rw [argumentsRest]
              exact ih (by omega) _ rest hrest' (by omega) depth (by omega)
                (hexpr rest hrest' (by omega) depth (by omega))
          | rightParen => exact hexpect.bind rfl
          | _ => exact hexpect.bind_failed _

theorem agrees_arguments : Agrees s n 8 (arguments s.slots) (Parser.arguments n expr) := by
  refine .succ fun ls hls hlength depth hdepth ↦ ?_
  have hrest := agrees_argumentsRest hexpr hleaves hnil (Nat.le_refl n) [] ls hls hlength depth
    hdepth
  dsimp only
  rw [arguments]
  refine (comesTo_current hls).bind ?_
  cases ls with
  | nil => exact hrest
  | cons l ls =>
      obtain ⟨t, offset, newline⟩ := l
      cases t with
      | rightParen => exact (comesTo_take hls).bind rfl
      | _ => exact hrest

theorem agrees_operand : Agrees s (n + 1) 1 (operand s.slots) (Parser.operand n expr) := by
  refine .succ fun ls hls hlength depth hdepth ↦ ?_
  dsimp only
  rw [operand]
  refine (comesTo_current hls).bind ?_
  cases ls with
  | nil => exact comesTo_stop hls trivial
  | cons l ls =>
      obtain ⟨t, offset, newline⟩ := l
      have hrest := (List.suffix_cons _ _).trans hls
      rw [List.length_cons] at hlength hdepth
      cases t with
      | number text => exact (comesTo_take hls).bind rfl
      | str value => exact (comesTo_take hls).bind rfl
      | ident text =>
          refine (comesTo_name _ hls).bind ((comesTo_current hrest).bind ?_)
          cases ls with
          | nil => rfl
          | cons l ls =>
              obtain ⟨t, offset', newline'⟩ := l
              cases t with
              | leftParen =>
                  cases newline' with
                  | true => rfl
                  | false =>
                      rw [List.length_cons] at hlength hdepth
                      refine (comesTo_take hrest).bind ?_
                      exact (agrees_arguments hexpr hleaves hnil).map
                        (Parser.leaves_arguments hleaves n) _ ls
                        ((List.suffix_cons _ _).trans hrest) (by omega) depth (by omega)
              | _ => rfl
      | leftParen =>
          refine (comesTo_take hls).bind ?_
          have hparen : Agrees s n 6 (fun depth ↦ do
              let inner ← chain s.slots depth .sum
              expect s.slots .rightParen ")"
              return Expr.paren inner) (do
              let e ← expr
              Parser.expect .rightParen ")"
              return Expr.paren e) :=
            hexpr.bind hleaves fun _ ↦
              (agrees_expect _ _).bind (Parser.leaves_expect _ (.head _)) fun _ ↦ agrees_pure _
          exact hparen ls hrest (by omega) depth (by omega)
      | _ => exact comesTo_stop hls trivial

end Arguments

theorem expr_nil (n : Nat) : Parser.expr n [] = .failed .expressionExpected [] := by
  cases n <;> rfl

theorem agrees_expr (n : Nat) : Agrees s n 6 (chain s.slots · .sum) (Parser.expr n) := by
  induction n with
  | zero =>
      -- where nothing is left, nothing but the fault of an operand can come of it
      have hoperand : Agrees s 0 1 (operand s.slots) (Parser.fail .expressionExpected) := by
        refine .succ fun ls hls hlength depth hdepth ↦ ?_
        obtain rfl : ls = [] := List.length_eq_zero_iff.mp (Nat.le_zero.mp hlength)
        dsimp only
        rw [operand]
        exact (comesTo_current hls).bind (comesTo_stop hls trivial)
      intro ls hls hlength depth hdepth
      obtain rfl : ls = [] := List.length_eq_zero_iff.mp (Nat.le_zero.mp hlength)
      exact agrees_chain hoperand (.fail trivial) [] hls hlength depth hdepth
  | succ n ih =>
      have hleaves := Parser.leaves_expr n
      exact fun ls hls hlength depth hdepth ↦
        agrees_chain (agrees_operand ih hleaves (expr_nil n)) (Parser.leaves_operand hleaves n)
          ls hls hlength depth hdepth

/-! ### Statements -/

theorem agrees_variableKind :
    Agrees s n k (fun _ ↦ variableKind s.slots) Parser.variableKind := by
  refine .of_comesTo fun ls hls ↦ (comesTo_current hls).bind ?_
  cases ls with
  | nil => rfl
  | cons l ls =>
      obtain ⟨t, offset, newline⟩ := l
      cases t with
      | keyword word =>
          cases word with
          | letWord => exact (comesTo_take hls).bind rfl
          | constWord => exact (comesTo_take hls).bind rfl
          | _ => rfl
      | _ => rfl

theorem agrees_initialValue : Agrees s n 6 (initialValue s.slots) (Parser.initialValue n) := by
  intro ls hls hlength depth hdepth
  refine (comesTo_current hls).bind ?_
  cases ls with
  | nil => rfl
  | cons l ls =>
      obtain ⟨t, offset, newline⟩ := l
      rw [List.length_cons] at hlength hdepth
      cases t with
      | assign op =>
          cases op with
          | plain =>
              refine (comesTo_take hls).bind ?_
              exact (agrees_expr n).map (Parser.leaves_expr n) some ls
                ((List.suffix_cons _ _).trans hls) (by omega) depth (by omega)
          | compound op => rfl
      | _ => rfl

theorem agrees_needsValue (kind : VariableKind) (m : Name) (value : Option Expr) :
    Agrees s n k (fun _ ↦ needsValue s.slots kind m value) (Parser.needsValue kind m value) := by
  refine .of_comesTo fun ls hls ↦ ?_
  cases value with
  | none =>
      cases kind with
      | letWord => rfl
      | constWord => rfl
      | bare => exact comesTo_stop hls trivial
  | some value => cases kind <;> rfl

theorem agrees_variableStmt (isExported : Bool) :
    Agrees s n 6 (variableStmt s.slots · isExported) (Parser.variableStmt n isExported) :=
  agrees_variableKind.bind Parser.leaves_variableKind fun _ ↦
    agrees_name.bind Parser.leaves_name fun _ ↦
      agrees_initialValue.bind (Parser.leaves_initialValue n) fun _ ↦
        (agrees_needsValue _ _ _).bind (Parser.leaves_needsValue _ _ _) fun _ ↦ agrees_pure _

theorem agrees_importSpecifier (binding : Name) :
    Agrees s n k (fun _ ↦ importSpecifier s.slots binding) (Parser.importSpecifier binding) := by
  refine .of_comesTo fun ls hls ↦ (comesTo_current hls).bind ?_
  cases ls with
  | nil => exact comesTo_stop hls trivial
  | cons l ls =>
      obtain ⟨t, offset, newline⟩ := l
      cases t with
      | str specifier => exact (comesTo_take hls).bind rfl
      | _ => exact comesTo_stop hls trivial

/-- What follows the keyword of an import. -/
theorem agrees_importRest : Agrees s n k (fun _ ↦ do
    let binding ← name s.slots
    expect s.slots (.keyword .fromWord) "from"
    importSpecifier s.slots binding) Parser.importStmt :=
  agrees_name.bind Parser.leaves_name fun _ ↦
    (agrees_expect _ _).bind (Parser.leaves_expect _ (.tail _ (.tail _ (.head _)))) fun _ ↦
      agrees_importSpecifier _

theorem agrees_statementBody :
    Agrees s n 6 (statementBody s.slots) (Parser.statementBody n) := by
  intro ls hls hlength depth hdepth
  refine (comesTo_current hls).bind ((comesTo_following hls).bind ?_)
  have hexpr := (agrees_expr n).map (Parser.leaves_expr n) Stmt.expr ls hls hlength depth hdepth
  cases ls with
  | nil => exact hexpr
  | cons l ls =>
      obtain ⟨t, offset, newline⟩ := l
      have hrest := (List.suffix_cons _ _).trans hls
      have hvariable := agrees_variableStmt false _ hls hlength depth hdepth
      rw [List.length_cons] at hlength hdepth
      cases t with
      | keyword word =>
          cases word with
          | importWord =>
              exact (comesTo_expect (.keyword .importWord) "import" _ hls).bind
                (agrees_importRest (n := n) (k := 0) ls hrest (by omega) depth (by omega))
          | declareWord =>
              exact (comesTo_take hls).bind ((agrees_name (n := n) (k := 0)).map Parser.leaves_name
                _ ls hrest (by omega) depth (by omega))
          | exportWord =>
              exact (comesTo_take hls).bind
                (agrees_variableStmt true ls hrest (by omega) depth (by omega))
          | letWord => exact hvariable
          | constWord => exact hvariable
          | fromWord => exact hexpr
      | ident text =>
          cases ls with
          | nil => exact hexpr
          | cons l ls =>
              obtain ⟨t, offset', newline'⟩ := l
              cases t with
              | assign op =>
                  rw [List.length_cons] at hlength hdepth
                  refine (comesTo_name _ hls).bind ((comesTo_take hrest).bind ?_)
                  exact (agrees_expr n).map (Parser.leaves_expr n) _ ls
                    ((List.suffix_cons _ _).trans hrest) (by omega) depth (by omega)
              | _ => exact hexpr
      | _ => exact hexpr

theorem agrees_statementEnd :
    Agrees s n k (fun _ ↦ statementEnd s.slots) Parser.statementEnd := by
  refine .of_comesTo fun ls hls ↦ (comesTo_current hls).bind ?_
  cases ls with
  | nil => rfl
  | cons l ls =>
      rw [Parser.statementEnd]
      by_cases ht : l.token = .semicolon
      · rw [if_pos ht, if_pos (Scan.token?_slotAt_cons.mpr ht)]
        exact comesTo_take hls
      rw [if_neg ht, if_neg (ht ∘ Scan.token?_slotAt_cons.mp)]
      by_cases hnewline : l.newlineBefore = true
      · rw [if_pos hnewline, if_pos (Scan.ends_slotAt_cons.mpr hnewline)]
        rfl
      · rw [if_neg hnewline, if_neg (hnewline ∘ Scan.ends_slotAt_cons.mp)]
        exact comesTo_stop hls trivial

theorem agrees_statement : Agrees s n 6 (statement s.slots) (Parser.statement n) :=
  agrees_statementBody.bind (Parser.leaves_statementBody n) fun _ ↦
    agrees_statementEnd.bind Parser.leaves_statementEnd fun _ ↦ agrees_pure _

end Reader

end PipedCompiler.Language
