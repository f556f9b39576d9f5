import PipedCompiler.Proofs.Language.Reading

/-!
# What is spelled is read

Lexemes that spell an expression are read as that expression, unless what follows them belongs to it
too.  So lexemes that spell statements, each with a semicolon behind it, are read as these
statements.
-/

namespace PipedCompiler.Language

/-! ## What may follow -/

/-- Whether these lexemes may follow an expression that holds together so tightly: they neither
begin with an operator that binds as tightly nor with the parenthesis of a call. -/
structure Follows (k : Nat) (rest : List Lexeme) : Prop where
  operator : ∀ l ∈ rest.head?, ∀ op, l.token = .operator op → op.rank < k
  leftParen : ∀ l ∈ rest.head?, l.token = .leftParen → l.newlineBefore = true

namespace Follows

theorem mono {j k : Nat} {rest : List Lexeme} (hjk : j ≤ k) (h : Follows j rest) :
    Follows k rest :=
  ⟨fun l hl op hop ↦ Nat.lt_of_lt_of_le (h.operator l hl op hop) hjk, h.leftParen⟩

theorem of_operator {k : Nat} {op : BinaryOp} {l : Lexeme} {ls : List Lexeme}
    (htoken : l.token = .operator op) (hrank : op.rank < k) : Follows k (l :: ls) := by
  constructor
  · rintro _ ⟨⟩ op' hop'
    obtain rfl := Token.operator.inj (htoken.symm.trans hop')
    exact hrank
  · rintro _ ⟨⟩ hparen
    cases htoken.symm.trans hparen

theorem of_token {k : Nat} {t : Token} {offset : Nat} {newline : Bool} {ls : List Lexeme}
    (hoperator : ∀ op, t ≠ .operator op) (hparen : t ≠ .leftParen) :
    Follows k (⟨t, offset, newline⟩ :: ls) := by
  constructor
  · rintro _ ⟨⟩ op hop
    exact absurd hop (hoperator op)
  · rintro _ ⟨⟩ h
    exact absurd h hparen

section Marks

variable {k offset : Nat} {newline : Bool} {rest : List Lexeme}

/-- A comma may follow any argument. -/
theorem comma : Follows k (⟨.comma, offset, newline⟩ :: rest) :=
  of_token (by rintro _ ⟨⟩) (by rintro ⟨⟩)

/-- A parenthesis that closes may follow any expression. -/
theorem rightParen : Follows k (⟨.rightParen, offset, newline⟩ :: rest) :=
  of_token (by rintro _ ⟨⟩) (by rintro ⟨⟩)

/-- A semicolon may follow any expression. -/
theorem semicolon : Follows k (⟨.semicolon, offset, newline⟩ :: rest) :=
  of_token (by rintro _ ⟨⟩) (by rintro ⟨⟩)

end Marks

end Follows

/-! ## Expressions -/

theorem Spells.inExpression {e : Expr} {ls : List Lexeme} (h : Spells e.marks ls) {l : Lexeme}
    (hl : l ∈ ls) : l.token.inExpression = true := by
  have hmem : l.token ∈ e.marks.map Mark.token := h.map_token ▸ List.mem_map_of_mem hl
  obtain ⟨m, hm, heq⟩ := List.mem_map.mp hmem
  rw [← heq]
  exact e.inExpression_of_mem_marks m hm

/-- What spells an expression starts as expressions do. -/
theorem Spells.startsExpression {e : Expr} {ls : List Lexeme} (h : Spells e.marks ls) :
    ∃ l rest, ls = l :: rest ∧ l.token.startsExpression = true := by
  obtain ⟨t, ms, hmarks, ht⟩ := e.marks_eq_cons
  obtain ⟨offset, newline, rest, -, rfl⟩ := free_cons_iff.mp (hmarks ▸ h)
  exact ⟨_, rest, rfl, ht⟩

/-- An expression that is neither signed nor combined does not start with a sign. -/
theorem Expr.AtLevel.token_ne_sub {e : Expr} (h : e.AtLevel 3) {l : Lexeme} {ls : List Lexeme}
    (hspells : Spells e.marks (l :: ls)) : l.token ≠ .operator .sub := by
  have htokens := hspells.map_token
  have hrank := h.le_rank
  cases e with
  | neg operand => exact absurd hrank (by simp [Expr.rank])
  | binary op lhs rhs => exact absurd hrank (by cases op <;> simp [Expr.rank, BinaryOp.rank])
  | _ =>
      rw [List.map_cons, Expr.marks, List.map_cons] at htokens
      rw [(List.cons.inj htokens).1]
      rintro ⟨⟩

namespace Parser

/-- Whether a parser reads back expressions that hold together so tightly, up to their places, if at
most `bound` lexemes are ahead. -/
def Accepts (k : Nat) (p : Parser Expr) (bound : Nat) : Prop :=
  ∀ ⦃e : Expr⦄ ⦃ls rest : List Lexeme⦄, e.AtLevel k → Spells e.marks ls → Follows k rest →
    (ls ++ rest).length ≤ bound → ∃ e', p (ls ++ rest) = .parsed e' rest ∧ e'.unplaced = e.unplaced

section Chain

variable {k bound : Nat} {op? : Token → Option BinaryOp} {operand : Parser Expr}

/-- A chain ends where nothing follows that belongs to it. -/
theorem chainRest_of_follows (hop : OfRank k op?) {n : Nat} {e : Expr} {rest : List Lexeme}
    (hrest : Follows k rest) : chainRest op? operand n e rest = .parsed e rest := by
  cases n with
  | zero => rfl
  | succ n =>
      cases rest with
      | nil => rfl
      | cons l ls =>
          rw [chainRest]
          split
          · rfl
          · next op hsome =>
            obtain ⟨htoken, hrank⟩ := (hop _ _).mp hsome
            exact absurd (hrest.operator l rfl op htoken) (by omega)

/-- A chain starts with its first operand. -/
theorem chain_of_operand (hoperand : Accepts (k + 1) operand bound) {e : Expr}
    {ls rest : List Lexeme} (he : e.AtLevel (k + 1)) (hspells : Spells e.marks ls)
    (hrest : Follows (k + 1) rest) (hlength : (ls ++ rest).length ≤ bound) :
    ∃ e' n, chain bound op? operand (ls ++ rest) = chainRest op? operand n e' rest ∧
      rest.length ≤ n ∧ e'.unplaced = e.unplaced := by
  obtain ⟨e', hread, heq⟩ := hoperand he hspells hrest hlength
  refine ⟨e', bound, ?_, Nat.le_trans (List.suffix_append ls rest).length_le hlength, heq⟩
  show Parser.bind operand _ _ = _
  rw [Parser.bind, hread]

/-- What comes before an operator of a chain is read as its left operand. -/
theorem accepts_chainRest (hk : k < 2) (hop : OfRank k op?)
    (hoperand : Accepts (k + 1) operand bound) {e : Expr} {ls rest : List Lexeme}
    (he : e.AtLevel k) (hspells : Spells e.marks ls) (hrest : Follows (k + 1) rest)
    (hlength : (ls ++ rest).length ≤ bound) :
    ∃ e' n, chain bound op? operand (ls ++ rest) = chainRest op? operand n e' rest ∧
      rest.length ≤ n ∧ e'.unplaced = e.unplaced := by
  induction e generalizing ls rest with
  | binary op lhs rhs ihlhs _ =>
      obtain hrank | hrank := Nat.lt_or_eq_of_le he.le_rank
      · exact chain_of_operand hoperand ⟨he.grouped, hrank⟩ hspells hrest hlength
      · cases he.grouped with
        | binary hlhs hrhs hleft hright =>
            change k = op.rank at hrank
            subst hrank
            obtain ⟨before, more, hbefore, hmore, rfl⟩ := Spells.append_iff.mp hspells
            obtain ⟨l, behind, hfits, hbehind, rfl⟩ := Spells.cons_iff.mp hmore
            rw [List.append_assoc, List.cons_append] at hlength ⊢
            obtain ⟨lhs', n, hchain, hn, hlhs'⟩ := ihlhs ⟨hlhs, hleft⟩ hbefore
              (.of_operator hfits.token (Nat.lt_succ_self _)) hlength
            obtain ⟨n, rfl⟩ : ∃ m, n = m + 1 := ⟨n - 1, by simp at hn; omega⟩
            simp only [List.length_append, List.length_cons] at hlength hn
            obtain ⟨rhs', hread, hrhs'⟩ := hoperand ⟨hrhs, hright⟩ hbehind hrest
              (by simp only [List.length_append]; omega)
            refine ⟨.binary op lhs' rhs', n, ?_, by omega, ?_⟩
            · rw [hchain, chainRest, (hop _ _).mpr ⟨hfits.token, rfl⟩]
              simp only [hread]
            · rw [Expr.unplaced, Expr.unplaced, hlhs', hrhs']
  | _ =>
      refine chain_of_operand hoperand ⟨he.grouped, ?_⟩ hspells hrest hlength
      simp only [Expr.rank]
      omega

theorem accepts_chain (hk : k < 2) (hop : OfRank k op?) (hoperand : Accepts (k + 1) operand bound) :
    Accepts k (chain bound op? operand) bound := by
  intro e ls rest he hspells hrest hlength
  obtain ⟨e', n, hchain, -, heq⟩ :=
    accepts_chainRest hk hop hoperand he hspells (hrest.mono (Nat.le_succ k)) hlength
  exact ⟨e', hchain.trans (chainRest_of_follows hop hrest), heq⟩

/-- An operand without signs is read as such. -/
theorem signed_of_operand (hoperand : Accepts 3 operand bound) {e : Expr} {ls rest : List Lexeme}
    (he : e.AtLevel 3) (hspells : Spells e.marks ls) (hrest : Follows 2 rest)
    (hlength : (ls ++ rest).length ≤ bound) :
    ∃ e', signed operand (ls ++ rest) = .parsed e' rest ∧ e'.unplaced = e.unplaced := by
  obtain ⟨l, behind, rfl, -⟩ := hspells.startsExpression
  have htoken := he.token_ne_sub hspells
  obtain ⟨e', hread, heq⟩ := hoperand he hspells (hrest.mono (Nat.le_succ 2)) hlength
  refine ⟨e', ?_, heq⟩
  rw [List.cons_append, signed, if_neg htoken]
  exact hread

theorem accepts_signed (hoperand : Accepts 3 operand bound) :
    Accepts 2 (signed operand) bound := by
  intro e ls rest he hspells hrest hlength
  induction e generalizing ls with
  | neg inner ih =>
      cases he.grouped with
      | neg hgrouped hrank =>
          obtain ⟨l, behind, hfits, hbehind, rfl⟩ := Spells.cons_iff.mp hspells
          obtain ⟨inner', hread, heq⟩ := ih ⟨hgrouped, hrank⟩ hbehind (Nat.le_of_succ_le hlength)
          refine ⟨.neg inner', ?_, by rw [Expr.unplaced, Expr.unplaced, heq]⟩
          have htoken : l.token = .operator .sub := hfits.token
          rw [List.cons_append, signed, if_pos htoken, hread]
  | binary op lhs rhs _ _ =>
      exact absurd he.le_rank (by cases op <;> simp [Expr.rank, BinaryOp.rank])
  | _ => exact signed_of_operand hoperand ⟨he.grouped, Nat.le_refl 3⟩ hspells hrest hlength

end Chain

section Operand

variable {bound : Nat} {expr : Parser Expr}

/-- Arguments are read after those that are known, up to the parenthesis behind them. -/
theorem accepts_argumentsRest (hexpr : Accepts 0 expr bound) (known : List Expr) {n : Nat}
    {e : Expr} {args : List Expr} {ls rest : List Lexeme}
    (hgrouped : ∀ arg ∈ e :: args, arg.Grouped)
    (hspells : Spells (Expr.marksOfArguments (e :: args) ++ [.free .rightParen]) ls)
    (hlength : (ls ++ rest).length ≤ bound) (hn : ls.length ≤ n) :
    ∃ args', argumentsRest expr n known (ls ++ rest) = .parsed (known.reverse ++ args') rest ∧
      args'.map Expr.unplaced = (e :: args).map Expr.unplaced := by
  induction args generalizing e known ls n with
  | nil =>
      obtain ⟨taken, behind, htaken, hbehind, rfl⟩ := Spells.append_iff.mp hspells
      obtain ⟨offset, newline, rfl⟩ := Spells.free_iff.mp hbehind
      obtain ⟨n, rfl⟩ : ∃ m, n = m + 1 := ⟨n - 1, by simp at hn; omega⟩
      rw [List.append_assoc, List.singleton_append] at hlength ⊢
      obtain ⟨e', hread, heq⟩ :=
        hexpr ⟨hgrouped e List.mem_cons_self, Nat.zero_le _⟩ htaken .rightParen hlength
      refine ⟨[e'], ?_, by simpa using heq⟩
      rw [argumentsRest, hread]
      simp
  | cons d args ih =>
      rw [Expr.marksOfArguments, List.append_assoc, List.cons_append] at hspells
      obtain ⟨taken, behind, htaken, hbehind, rfl⟩ := Spells.append_iff.mp hspells
      obtain ⟨offset, newline, more, hmore, rfl⟩ := Spells.free_cons_iff.mp hbehind
      obtain ⟨n, rfl⟩ : ∃ m, n = m + 1 := ⟨n - 1, by simp at hn; omega⟩
      rw [List.append_assoc, List.cons_append] at hlength ⊢
      obtain ⟨e', hread, heq⟩ :=
        hexpr ⟨hgrouped e List.mem_cons_self, Nat.zero_le _⟩ htaken .comma hlength
      simp only [List.length_append, List.length_cons] at hlength hn
      obtain ⟨args', hrest, hargs'⟩ := ih (e' :: known) (n := n)
        (List.forall_mem_cons.mp hgrouped).2 hmore
        (by simp only [List.length_append]; omega) (by omega)
      refine ⟨e' :: args', ?_, by rw [List.map_cons, List.map_cons, heq, hargs']⟩
      rw [argumentsRest, hread]
      simpa using hrest

theorem accepts_arguments (hexpr : Accepts 0 expr bound) {n : Nat} {args : List Expr}
    {ls rest : List Lexeme} (hgrouped : ∀ arg ∈ args, arg.Grouped)
    (hspells : Spells (Expr.marksOfArguments args ++ [.free .rightParen]) ls)
    (hlength : (ls ++ rest).length ≤ bound) (hn : ls.length ≤ n) :
    ∃ args', arguments n expr (ls ++ rest) = .parsed args' rest ∧
      args'.map Expr.unplaced = args.map Expr.unplaced := by
  cases args with
  | nil =>
      obtain ⟨offset, newline, rfl⟩ := Spells.free_iff.mp hspells
      exact ⟨[], rfl, rfl⟩
  | cons e args =>
      obtain ⟨args', hread, heq⟩ :=
        accepts_argumentsRest hexpr [] hgrouped hspells hlength hn
      refine ⟨args', ?_, heq⟩
      rw [arguments.eq_def]
      split
      · next hlexemes =>
        -- what spells an expression does not start with a parenthesis that closes
        obtain ⟨ms, hms⟩ := Expr.marksOfArguments_cons e args
        rw [hms, List.append_assoc] at hspells
        obtain ⟨taken, behind, htaken, -, rfl⟩ := Spells.append_iff.mp hspells
        obtain ⟨l, taken, rfl, hstarts⟩ := htaken.startsExpression
        obtain ⟨rfl, -⟩ := List.cons.inj hlexemes
        cases hstarts
      · exact hread

theorem accepts_operand (hexpr : Accepts 0 expr bound) :
    Accepts 3 (operand bound expr) (bound + 1) := by
  intro e ls rest he hspells hrest hlength
  cases e with
  | number text =>
      obtain ⟨offset, newline, rfl⟩ := Spells.free_iff.mp hspells
      exact ⟨.number text, rfl, rfl⟩
  | str value =>
      obtain ⟨offset, newline, rfl⟩ := Spells.free_iff.mp hspells
      exact ⟨.str value, rfl, rfl⟩
  | name n =>
      obtain ⟨offset, newline, rfl⟩ := Spells.free_iff.mp hspells
      refine ⟨.name ⟨n.text, offset⟩, ?_, rfl⟩
      rw [List.singleton_append, operand.eq_def]
      split
      · cases ‹_ = _›
      · cases ‹_ = _›
      · next heq =>
        cases heq
        cases hrest.leftParen _ rfl rfl
      · next heq =>
        cases heq
        rfl
      · cases ‹_ = _›
      · next hno _ => exact (hno _ _ _ _ rfl).elim
  | neg operand => exact absurd he.le_rank (by simp [Expr.rank])
  | binary op lhs rhs => exact absurd he.le_rank (by cases op <;> simp [Expr.rank, BinaryOp.rank])
  | call callee args =>
      obtain ⟨offset, newline, behind, hbehind, rfl⟩ := Spells.free_cons_iff.mp hspells
      obtain ⟨⟨token, offset', newline'⟩, ls, hfits, hls, rfl⟩ := Spells.cons_iff.mp hbehind
      obtain rfl : token = .leftParen := hfits.token
      obtain rfl : newline' = false := hfits.newlineBefore rfl
      cases he.grouped with
      | call hgrouped =>
          have hbound : (ls ++ rest).length ≤ bound :=
            Nat.le_of_succ_le (Nat.le_of_succ_le_succ hlength)
          have hn : ls.length ≤ bound :=
            Nat.le_trans (List.prefix_append ls rest).length_le hbound
          obtain ⟨args', hread, heq⟩ := accepts_arguments hexpr hgrouped hls hbound hn
          refine ⟨.call ⟨callee.text, offset⟩ args', ?_, ?_⟩
          · exact map_eq_parsed.mpr ⟨args', hread, rfl⟩
          · simp only [Expr.unplaced, Expr.unplacedAll_eq, heq, Name.unplaced]
  | paren inner =>
      obtain ⟨offset, newline, behind, hbehind, rfl⟩ := Spells.free_cons_iff.mp hspells
      obtain ⟨taken, closing, htaken, hclosing, rfl⟩ := Spells.append_iff.mp hbehind
      obtain ⟨offset', newline', rfl⟩ := Spells.free_iff.mp hclosing
      cases he.grouped with
      | paren hgrouped =>
          rw [List.cons_append, List.append_assoc, List.singleton_append] at hlength ⊢
          obtain ⟨inner', hread, heq⟩ := hexpr ⟨hgrouped, Nat.zero_le _⟩ htaken .rightParen
            (Nat.le_of_succ_le_succ hlength)
          refine ⟨.paren inner', ?_, by rw [Expr.unplaced, Expr.unplaced, heq]⟩
          exact bind_eq_parsed.mpr ⟨inner', _, hread,
            bind_eq_parsed.mpr ⟨(), _, expect_eq_parsed.mpr ⟨_, rfl, rfl⟩, rfl⟩⟩

theorem accepts_expr (n : Nat) : Accepts 0 (Parser.expr n) n := by
  induction n with
  | zero =>
      intro e ls rest he hspells hrest hlength
      obtain ⟨l, behind, rfl, -⟩ := hspells.startsExpression
      exact absurd hlength (Nat.not_succ_le_zero _)
  | succ n ih =>
      intro e ls rest he hspells hrest hlength
      exact accepts_chain (by decide) ofRank_sumOp
        (accepts_chain (by decide) ofRank_productOp (accepts_signed (accepts_operand ih)))
        he hspells hrest hlength

end Operand

/-! ## Statements -/

section Statements

variable {n offset : Nat} {newline : Bool} {rest : List Lexeme}

/-- An expression before a semicolon is read up to that. -/
theorem accepts_value {e : Expr} {ls : List Lexeme} (he : e.Grouped) (hspells : Spells e.marks ls)
    (hlength : (ls ++ ⟨.semicolon, offset, newline⟩ :: rest).length ≤ n) :
    ∃ e', expr n (ls ++ ⟨.semicolon, offset, newline⟩ :: rest)
      = .parsed e' (⟨.semicolon, offset, newline⟩ :: rest) ∧ e'.unplaced = e.unplaced :=
  accepts_expr n ⟨he, Nat.zero_le _⟩ hspells .semicolon hlength

theorem accepts_initialValue {value : Option Expr} {ls : List Lexeme}
    (hgrouped : ∀ e ∈ value, e.Grouped) (hspells : Spells (initialMarks value) ls)
    (hlength : (ls ++ ⟨.semicolon, offset, newline⟩ :: rest).length ≤ n) :
    ∃ value', initialValue n (ls ++ ⟨.semicolon, offset, newline⟩ :: rest)
      = .parsed value' (⟨.semicolon, offset, newline⟩ :: rest) ∧
      value'.map Expr.unplaced = value.map Expr.unplaced := by
  cases value with
  | none =>
      obtain rfl := Spells.nil_iff.mp hspells
      exact ⟨none, rfl, rfl⟩
  | some e =>
      obtain ⟨_, _, ls, hls, rfl⟩ := Spells.free_cons_iff.mp hspells
      obtain ⟨e', hread, heq⟩ := accepts_value (hgrouped e rfl) hls (Nat.le_of_succ_le hlength)
      exact ⟨some e', map_eq_parsed.mpr ⟨e', hread, rfl⟩, congrArg some heq⟩

theorem accepts_variableKind {kind : VariableKind} {name : String} {ms : List Mark}
    {ls : List Lexeme} (hspells : Spells (kind.marks ++ .free (.ident name) :: ms) ls) :
    ∃ place newline' behind, Spells ms behind ∧ behind.length ≤ ls.length ∧
      ∀ rest, variableKind (ls ++ rest)
        = .parsed kind (⟨.ident name, place, newline'⟩ :: (behind ++ rest)) := by
  obtain ⟨taken, more, htaken, hmore, rfl⟩ := Spells.append_iff.mp hspells
  obtain ⟨place, newline', behind, hbehind, rfl⟩ := Spells.free_cons_iff.mp hmore
  refine ⟨place, newline', behind, hbehind, ?_, ?_⟩
  · simp only [List.length_append, List.length_cons]
    omega
  · intro rest
    cases kind with
    | bare =>
        obtain rfl := Spells.nil_iff.mp htaken
        rfl
    | _ =>
        obtain ⟨_, _, rfl⟩ := Spells.free_iff.mp htaken
        rfl

theorem needsValue_of_isSome {kind : VariableKind} {name : Name} {value : Option Expr}
    {ls : List Lexeme} (h : kind = .letWord ∨ value.isSome = true) :
    needsValue kind name value ls = .parsed () ls := by
  cases kind with
  | letWord => rfl
  | _ =>
      obtain ⟨e, rfl⟩ := Option.isSome_iff_exists.mp (h.resolve_left nofun)
      rfl

theorem accepts_variableStmt {isExported : Bool} {kind : VariableKind} {name : Name}
    {value : Option Expr} {ls : List Lexeme} (hgrouped : ∀ e ∈ value, e.Grouped)
    (hvalue : kind = .letWord ∨ value.isSome = true)
    (hspells : Spells (kind.marks ++ .free (.ident name.text) :: initialMarks value) ls)
    (hlength : (ls ++ ⟨.semicolon, offset, newline⟩ :: rest).length ≤ n) :
    ∃ s, variableStmt n isExported (ls ++ ⟨.semicolon, offset, newline⟩ :: rest)
      = .parsed s (⟨.semicolon, offset, newline⟩ :: rest) ∧
      s.unplaced = (Stmt.variable isExported kind name value).unplaced := by
  obtain ⟨place, newline', behind, hbehind, hle, hkind⟩ := accepts_variableKind hspells
  have hbound : (behind ++ ⟨.semicolon, offset, newline⟩ :: rest).length ≤ n :=
    Nat.le_trans (by simpa using hle) hlength
  obtain ⟨value', hread, heq⟩ := accepts_initialValue hgrouped hbehind hbound
  have hsome : value'.isSome = value.isSome := by simpa using congrArg Option.isSome heq
  refine ⟨.variable isExported kind ⟨name.text, place⟩ value', ?_, ?_⟩
  · exact bind_eq_parsed.mpr ⟨kind, _, hkind _, bind_eq_parsed.mpr
      ⟨_, _, name_eq_parsed.mpr ⟨_, rfl⟩, bind_eq_parsed.mpr ⟨_, _, hread, bind_eq_parsed.mpr
        ⟨(), _, needsValue_of_isSome (hsome ▸ hvalue), rfl⟩⟩⟩⟩
  · simp only [Stmt.unplaced, heq, Name.unplaced]

/-- What spells an expression is neither taken for an assignment nor for a statement that starts
with a keyword. -/
theorem statementBody_of_expression {e : Expr} {ls : List Lexeme} (hspells : Spells e.marks ls) :
    statementBody n (ls ++ ⟨.semicolon, offset, newline⟩ :: rest)
      = (Stmt.expr <$> expr n) (ls ++ ⟨.semicolon, offset, newline⟩ :: rest) := by
  obtain ⟨⟨token, place, newline'⟩, behind, rfl, hstarts⟩ := hspells.startsExpression
  cases token with
  | keyword word => cases hstarts
  | ident text =>
      cases behind with
      | nil => rfl
      | cons l behind =>
          obtain ⟨token, place', newline''⟩ := l
          cases token with
          | assign op =>
              exact nomatch hspells.inExpression (List.mem_cons_of_mem _ List.mem_cons_self)
          | _ => rfl
  | _ => rfl

/-- What spells a variable is taken for one. -/
theorem statementBody_of_variable {isExported : Bool} {kind : VariableKind} {ms : List Mark}
    {ls : List Lexeme} (hbare : kind = .bare → isExported = true)
    (hspells : Spells ((if isExported then [.free (.keyword .exportWord)] else []) ++
      (kind.marks ++ ms)) ls) :
    ∃ behind, Spells (kind.marks ++ ms) behind ∧ behind.length ≤ ls.length ∧
      ∀ rest, statementBody n (ls ++ rest) = variableStmt n isExported (behind ++ rest) := by
  cases isExported with
  | true =>
      obtain ⟨_, _, behind, hbehind, rfl⟩ := Spells.free_cons_iff.mp hspells
      exact ⟨behind, hbehind, Nat.le_succ _, fun _ ↦ rfl⟩
  | false =>
      refine ⟨ls, hspells, Nat.le_refl _, ?_⟩
      cases kind with
      | bare => cases hbare rfl
      | _ =>
          obtain ⟨_, _, behind, -, rfl⟩ := Spells.free_cons_iff.mp hspells
          exact fun _ ↦ rfl

theorem accepts_statementBody {s : Stmt} {ls : List Lexeme} (hs : s.Normal)
    (hspells : Spells s.marks ls)
    (hlength : (ls ++ ⟨.semicolon, offset, newline⟩ :: rest).length ≤ n) :
    ∃ s', statementBody n (ls ++ ⟨.semicolon, offset, newline⟩ :: rest)
      = .parsed s' (⟨.semicolon, offset, newline⟩ :: rest) ∧ s'.unplaced = s.unplaced := by
  cases s with
  | imports binding specifier _ =>
      obtain ⟨_, _, behind, hbehind, rfl⟩ := Spells.free_cons_iff.mp hspells
      obtain ⟨place, _, behind, hfrom, rfl⟩ := Spells.free_cons_iff.mp hbehind
      obtain ⟨_, _, behind, hspecifier, rfl⟩ := Spells.free_cons_iff.mp hfrom
      obtain ⟨place', _, rfl⟩ := Spells.free_iff.mp hspecifier
      exact ⟨.imports ⟨binding.text, place⟩ specifier place', rfl, rfl⟩
  | declares name =>
      obtain ⟨_, _, behind, hname, rfl⟩ := Spells.free_cons_iff.mp hspells
      obtain ⟨place, _, rfl⟩ := Spells.free_iff.mp hname
      exact ⟨.declares ⟨name.text, place⟩, rfl, rfl⟩
  | «variable» isExported kind name value =>
      obtain ⟨hgrouped, hvalue, hbare⟩ := Stmt.normal_variable_iff.mp hs
      obtain ⟨behind, hbehind, hle, hbody⟩ := statementBody_of_variable hbare hspells
      rw [hbody]
      exact accepts_variableStmt hgrouped hvalue hbehind
        (Nat.le_trans (by simpa using hle) hlength)
  | assign target op value =>
      obtain ⟨place, _, behind, hassign, rfl⟩ := Spells.free_cons_iff.mp hspells
      obtain ⟨_, _, behind, hbehind, rfl⟩ := Spells.free_cons_iff.mp hassign
      cases hs with
      | assign h =>
          obtain ⟨value', hread, heq⟩ := accepts_value h hbehind
            (Nat.le_of_succ_le (Nat.le_of_succ_le hlength))
          refine ⟨.assign ⟨target.text, place⟩ op value',
            map_eq_parsed.mpr ⟨value', hread, rfl⟩, ?_⟩
          simp only [Stmt.unplaced, Name.unplaced, heq]
  | expr e =>
      cases hs with
      | expr h =>
          obtain ⟨e', hread, heq⟩ := accepts_value h hspells hlength
          refine ⟨.expr e', ?_, congrArg Stmt.expr heq⟩
          rw [statementBody_of_expression hspells]
          exact map_eq_parsed.mpr ⟨e', hread, rfl⟩

theorem statementEnd_of_semicolon :
    statementEnd (⟨.semicolon, offset, newline⟩ :: rest) = .parsed () rest := by
  simp [statementEnd]

/-- A statement and its semicolon are read as that statement. -/
theorem accepts_statement {s : Stmt} {ls : List Lexeme} (hs : s.Normal)
    (hspells : Spells s.closedMarks ls) (hlength : (ls ++ rest).length ≤ n) :
    ∃ s', statement n (ls ++ rest) = .parsed s' rest ∧ s'.unplaced = s.unplaced := by
  obtain ⟨taken, ending, htaken, hending, rfl⟩ := Spells.append_iff.mp hspells
  obtain ⟨offset, newline, rfl⟩ := Spells.free_iff.mp hending
  rw [List.append_assoc, List.singleton_append] at hlength ⊢
  obtain ⟨s', hread, heq⟩ := accepts_statementBody hs htaken hlength
  exact ⟨s', bind_eq_parsed.mpr ⟨s', _, hread,
    bind_eq_parsed.mpr ⟨(), rest, statementEnd_of_semicolon, rfl⟩⟩, heq⟩

end Statements

end Parser

/-! ## Modules -/

namespace SyntaxTree

/-- Statements with a semicolon behind each are read as these statements. -/
theorem readFrom_of_spells (size : Nat) {n : Nat} {t : SyntaxTree} {ss : List Stmt}
    {ls : List Lexeme}
    (hss : ∀ s ∈ ss, s.Normal) (hspells : Spells (ss.flatMap Stmt.closedMarks) ls)
    (hlength : ls.length ≤ n) :
    ∃ ss' : List Stmt, readFrom size n t ls = ⟨ss'.reverse ++ t.statements, t.errors⟩ ∧
      ss'.map Stmt.unplaced = ss.map Stmt.unplaced := by
  induction ss generalizing n t ls with
  | nil =>
      obtain rfl := Spells.nil_iff.mp hspells
      refine ⟨[], ?_, rfl⟩
      cases n <;> rfl
  | cons s ss ih =>
      rw [List.forall_mem_cons] at hss
      rw [List.flatMap_cons] at hspells
      obtain ⟨taken, rest, htaken, hrest, rfl⟩ := Spells.append_iff.mp hspells
      obtain ⟨first, ms, hmarks, hfirst⟩ := s.marks_eq_cons
      have hclosed : s.closedMarks = .free first :: (ms ++ [.free .semicolon]) := by
        rw [Stmt.closedMarks, hmarks, List.cons_append]
      obtain ⟨offset, newline, behind, -, rfl⟩ := Spells.free_cons_iff.mp (hclosed ▸ htaken)
      obtain ⟨n, rfl⟩ : ∃ m, n = m + 1 := ⟨n - 1, by simp at hlength; omega⟩
      obtain ⟨s', hread, heq⟩ := Parser.accepts_statement hss.1 htaken hlength
      have hle : rest.length ≤ n := by
        simp only [List.length_append, List.length_cons] at hlength
        omega
      obtain ⟨ss', htree, hss'⟩ :=
        ih (t := { t with statements := s' :: t.statements }) hss.2 hrest hle
      refine ⟨s' :: ss', ?_, by rw [List.map_cons, List.map_cons, heq, hss']⟩
      rw [List.cons_append] at hread ⊢
      rw [readFrom, if_neg hfirst, hread]
      show readFrom size n { t with statements := s' :: t.statements } rest = _
      rw [htree]
      simp

theorem ofLexemes_of_spells (size : Nat) {ss : List Stmt} {ls : List Lexeme}
    (hss : ∀ s ∈ ss, s.Normal) (hspells : Spells (ss.flatMap Stmt.closedMarks) ls) :
    (ofLexemes size ls).errors = [] ∧
      (ofLexemes size ls).statements.map Stmt.unplaced = ss.map Stmt.unplaced := by
  obtain ⟨ss', htree, hss'⟩ :=
    readFrom_of_spells size (t := ⟨[], []⟩) hss hspells (Nat.le_refl _)
  rw [ofLexemes, htree]
  simpa using hss'

theorem ofScan_of_spells {scan : Scan} {ss : List Stmt} (hlexical : scan.errors = [])
    (hss : ∀ s ∈ ss, s.Normal) (hspells : Spells (ss.flatMap Stmt.closedMarks) scan.lexemes) :
    (ofScan scan).errors = [] ∧
      (ofScan scan).statements.map Stmt.unplaced = ss.map Stmt.unplaced := by
  obtain ⟨hgrammar, hstatements⟩ := ofLexemes_of_spells scan.size hss hspells
  exact ⟨ofScan_errors_eq_nil.mpr ⟨hlexical, hgrammar⟩, hstatements⟩

/-- What is read without errors is statements of the grammar, one behind the other, and statements
of the grammar with a semicolon behind each are read without errors. -/
theorem reads_exactly_grammar :
    (∀ cs tree, ofText? cs = some tree → tree.errors = [] →
      ∃ scan, Scan.ofText? cs = some scan ∧ scan.errors = [] ∧
        Laid tree.statements scan.lexemes ∧ ∀ s ∈ tree.statements, s.Normal) ∧
    ∀ (scan : Scan) (ss : List Stmt), scan.errors = [] → (∀ s ∈ ss, s.Normal) →
      Spells (ss.flatMap Stmt.closedMarks) scan.lexemes →
        (ofScan scan).errors = [] ∧
          (ofScan scan).statements.map Stmt.unplaced = ss.map Stmt.unplaced := by
  constructor
  · intro cs tree htree herrors
    obtain ⟨scan, hscan, rfl⟩ := Option.map_eq_some_iff.mp htree
    obtain ⟨hlexical, hgrammar⟩ := ofScan_errors_eq_nil.mp herrors
    obtain ⟨hlaid, hnormal⟩ := laid_ofLexemes hgrammar
    exact ⟨scan, hscan, hlexical, hlaid, hnormal⟩
  · exact fun scan ss hlexical hss hspells ↦ ofScan_of_spells hlexical hss hspells

/-- Two statements on lines of their own. -/
def twoLines : String :=
  "export x = f(1) - -y * 2\nx += x"

/-- The scan of an assignment and a semicolon. -/
def increment : Scan :=
  ⟨[⟨.ident "x", 0, false⟩, ⟨.assign (.compound .add), 2, false⟩, ⟨.number "1", 5, false⟩,
    ⟨.semicolon, 6, false⟩], [], 7, false⟩

theorem reads_exactly_grammar_twoLines :
    (∃ tree, ofText? twoLines.toList = some tree ∧ tree.errors = [] ∧ tree.statements.length = 2 ∧
      ∃ scan, Scan.ofText? twoLines.toList = some scan ∧ scan.errors = [] ∧
        Laid tree.statements scan.lexemes ∧ ∀ s ∈ tree.statements, s.Normal) ∧
    (ofScan increment).errors = [] ∧
      (ofScan increment).statements.map Stmt.unplaced
        = [.assign ⟨"x", 0⟩ (.compound .add) (.number "1")] := by
  constructor
  · obtain ⟨tree, htree⟩ : ∃ tree, ofText? twoLines.toList = some tree :=
      Option.isSome_iff_exists.mp (by decide +kernel)
    have herrors : tree.errors = [] := by
      have h : (ofText? twoLines.toList).map errors = some [] := by decide +kernel
      simpa [htree] using h
    have hlength : tree.statements.length = 2 := by
      have h : (ofText? twoLines.toList).map (·.statements.length) = some 2 := by decide +kernel
      simpa [htree] using h
    exact ⟨tree, htree, herrors, hlength, reads_exactly_grammar.1 _ tree htree herrors⟩
  · have hnormal : ∀ s ∈ [Stmt.assign ⟨"x", 0⟩ (.compound .add) (.number "1")], s.Normal := by
      simpa using Stmt.Normal.assign .number
    have hspells : Spells ([Stmt.assign ⟨"x", 0⟩ (.compound .add) (.number "1")].flatMap
        Stmt.closedMarks) increment.lexemes :=
      .cons (Mark.fits_free rfl) (.cons (Mark.fits_free rfl) (.cons (Mark.fits_free rfl)
        (.cons (Mark.fits_free rfl) .nil)))
    exact reads_exactly_grammar.2 increment _ rfl hnormal hspells

end SyntaxTree

end PipedCompiler.Language
