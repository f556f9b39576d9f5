import PipedCompiler.Proofs.Language.Grammar

/-!
# What is read is spelled

A parser takes the lexemes that spell what it reads, and nothing else.  So if a text is read as a
module without errors, its lexemes spell the statements of the module.
-/

namespace PipedCompiler.Language

variable {α β : Type}

namespace Parser

/-! ## One parser behind the other -/

theorem bind_eq_parsed {p : Parser α} {next : α → Parser β} {ls rest : List Lexeme} {b : β} :
    (p >>= next) ls = .parsed b rest ↔
      ∃ a between, p ls = .parsed a between ∧ next a between = .parsed b rest := by
  show Parser.bind p next ls = _ ↔ _
  rw [Parser.bind]
  cases p ls with
  | parsed a between =>
      constructor
      · exact fun h ↦ ⟨a, between, rfl, h⟩
      · rintro ⟨_, _, ⟨⟩, h⟩
        exact h
  | failed fault between =>
      constructor
      · rintro ⟨⟩
      · rintro ⟨_, _, ⟨⟩, -⟩

theorem map_eq_parsed {f : α → β} {p : Parser α} {ls rest : List Lexeme} {b : β} :
    (f <$> p) ls = .parsed b rest ↔ ∃ a, p ls = .parsed a rest ∧ f a = b := by
  refine bind_eq_parsed.trans ⟨?_, ?_⟩
  · rintro ⟨a, _, h, ⟨⟩⟩
    exact ⟨a, h, rfl⟩
  · rintro ⟨a, h, rfl⟩
    exact ⟨a, rest, h, rfl⟩

theorem pure_eq_parsed {a b : α} {ls rest : List Lexeme} :
    (Pure.pure a : Parser α) ls = .parsed b rest ↔ a = b ∧ ls = rest := by
  show Outcome.parsed a ls = _ ↔ _
  simp

theorem expect_eq_parsed {t : Token} {mark : String} {ls rest : List Lexeme} :
    expect t mark ls = .parsed () rest ↔ ∃ l, l.token = t ∧ ls = l :: rest := by
  unfold expect
  cases ls with
  | nil => simp
  | cons l ls =>
      by_cases h : l.token = t
      · simp [h]
      · simp only [h, if_false, List.cons.injEq]
        refine ⟨nofun, ?_⟩
        rintro ⟨l', hl', rfl, -⟩
        exact absurd hl' h

theorem name_eq_parsed {n : Name} {ls rest : List Lexeme} :
    name ls = .parsed n rest ↔ ∃ newline, ls = ⟨.ident n.text, n.offset, newline⟩ :: rest := by
  unfold name
  split
  · next text offset newline ls =>
    obtain ⟨ntext, noffset⟩ := n
    simp only [Outcome.parsed.injEq, Name.mk.injEq, List.cons.injEq, Lexeme.mk.injEq,
      Token.ident.injEq]
    constructor
    · rintro ⟨⟨rfl, rfl⟩, rfl⟩
      exact ⟨newline, ⟨rfl, rfl, rfl⟩, rfl⟩
    · rintro ⟨newline, ⟨rfl, rfl, rfl⟩, rfl⟩
      exact ⟨⟨rfl, rfl⟩, rfl⟩
  · next hno =>
    refine ⟨nofun, ?_⟩
    rintro ⟨newline, rfl⟩
    exact absurd rfl (hno _ _ _ _)

/-! ## Expressions -/

/-- Whether what a parser reads is spelled by the lexemes that it takes, and has a property. -/
def Reads (p : Parser α) (marks : α → List Mark) (good : α → Prop) : Prop :=
  ∀ ⦃ls a rest⦄, p ls = .parsed a rest →
    ∃ taken, ls = taken ++ rest ∧ Spells (marks a) taken ∧ good a

/-- Whether a parser reads expressions that hold together so tightly. -/
abbrev ReadsAt (k : Nat) (p : Parser Expr) : Prop :=
  Reads p Expr.marks (Expr.AtLevel k)

/-- Whether these are the operators of some rank. -/
def OfRank (k : Nat) (op? : Token → Option BinaryOp) : Prop :=
  ∀ t op, op? t = some op ↔ t = .operator op ∧ op.rank = k

theorem ofRank_sumOp : OfRank 0 sumOp? := by
  intro t op
  rw [sumOp?.eq_def]
  split
  · cases op <;> simp [BinaryOp.rank]
  · cases op <;> simp [BinaryOp.rank]
  · next hadd hsub =>
    refine ⟨nofun, ?_⟩
    rintro ⟨rfl, hrank⟩
    cases op with
    | add => exact absurd rfl hadd
    | sub => exact absurd rfl hsub
    | mul => cases hrank
    | div => cases hrank

theorem ofRank_productOp : OfRank 1 productOp? := by
  intro t op
  rw [productOp?.eq_def]
  split
  · cases op <;> simp [BinaryOp.rank]
  · cases op <;> simp [BinaryOp.rank]
  · next hmul hdiv =>
    refine ⟨nofun, ?_⟩
    rintro ⟨rfl, hrank⟩
    cases op with
    | add => cases hrank
    | sub => cases hrank
    | mul => exact absurd rfl hmul
    | div => exact absurd rfl hdiv

section Chain

variable {k : Nat} {op? : Token → Option BinaryOp} {operand : Parser Expr}

/-- What is added to the left operand of a chain is spelled by the lexemes that are taken. -/
theorem reads_chainRest (hop : OfRank k op?) (hoperand : ReadsAt (k + 1) operand) {n : Nat}
    {lhs e : Expr} {ls rest : List Lexeme} (hlhs : lhs.AtLevel k)
    (h : chainRest op? operand n lhs ls = .parsed e rest) :
    ∃ ms taken, e.marks = lhs.marks ++ ms ∧ ls = taken ++ rest ∧ Spells ms taken ∧
      e.AtLevel k := by
  induction n generalizing lhs ls with
  | zero =>
      obtain ⟨rfl, rfl⟩ : lhs = e ∧ ls = rest := by simpa [chainRest] using h
      exact ⟨[], [], by simp, rfl, .nil, hlhs⟩
  | succ n ih =>
      cases ls with
      | nil =>
          obtain ⟨rfl, rfl⟩ : lhs = e ∧ [] = rest := by simpa [chainRest] using h
          exact ⟨[], [], by simp, rfl, .nil, hlhs⟩
      | cons l ls =>
          rw [chainRest] at h
          split at h
          · obtain ⟨rfl, rfl⟩ : lhs = e ∧ l :: ls = rest := by simpa using h
            exact ⟨[], [], by simp, rfl, .nil, hlhs⟩
          · next op hsome =>
            obtain ⟨htoken, hrank⟩ := (hop _ _).mp hsome
            split at h
            · next rhs between hrhs =>
              obtain ⟨taken, rfl, hspells, hat⟩ := hoperand hrhs
              have hbinary : (Expr.binary op lhs rhs).AtLevel k :=
                ⟨.binary hlhs.grouped hat.grouped (Nat.le_trans (Nat.le_of_eq hrank) hlhs.le_rank)
                  (hrank ▸ hat.le_rank), Nat.le_of_eq hrank.symm⟩
              obtain ⟨ms, more, hmarks, rfl, hmore, he⟩ := ih hbinary h
              refine ⟨.free (.operator op) :: (rhs.marks ++ ms), l :: (taken ++ more), ?_, ?_, ?_,
                he⟩
              · rw [hmarks, Expr.marks]
                simp
              · simp
              · exact .cons (Mark.fits_free htoken) (List.rel_append hspells hmore)
            · cases h

theorem reads_chain (hop : OfRank k op?) (hoperand : ReadsAt (k + 1) operand) (n : Nat) :
    ReadsAt k (chain n op? operand) := by
  intro ls e rest h
  obtain ⟨lhs, between, hlhs, hrest⟩ := bind_eq_parsed.mp h
  obtain ⟨taken, rfl, hspells, hat⟩ := hoperand hlhs
  obtain ⟨ms, more, hmarks, rfl, hmore, he⟩ :=
    reads_chainRest hop hoperand (hat.mono (Nat.le_succ k)) hrest
  refine ⟨taken ++ more, by simp, ?_, he⟩
  rw [hmarks]
  exact List.rel_append hspells hmore

theorem reads_signed (hoperand : ReadsAt 3 operand) : ReadsAt 2 (signed operand) := by
  have hunsigned : ReadsAt 2 operand := fun ls e rest h ↦
    have ⟨taken, happend, hspells, hat⟩ := hoperand h
    ⟨taken, happend, hspells, hat.mono (Nat.le_succ 2)⟩
  intro ls e rest h
  induction ls generalizing e with
  | nil => exact hunsigned h
  | cons l ls ih =>
      rw [signed] at h
      split at h
      · next htoken =>
        split at h
        · next inner between hinner =>
          obtain ⟨rfl, rfl⟩ : Expr.neg inner = e ∧ between = rest := by simpa using h
          obtain ⟨taken, rfl, hspells, hat⟩ := ih hinner
          exact ⟨l :: taken, rfl, .cons (Mark.fits_free htoken) hspells,
            .neg hat.grouped hat.le_rank, Nat.le_refl _⟩
        · cases h
      · exact hunsigned h

end Chain

section Operand

variable {expr : Parser Expr}

/-- What is added to the arguments that are known is spelled by the lexemes that are taken, up to
the parenthesis behind them. -/
theorem reads_argumentsRest (hexpr : ReadsAt 0 expr) {n : Nat} {known args : List Expr}
    {ls rest : List Lexeme} (h : argumentsRest expr n known ls = .parsed args rest) :
    ∃ more taken, args = known.reverse ++ more ∧ ls = taken ++ rest ∧
      Spells (Expr.marksOfArguments more ++ [.free .rightParen]) taken ∧ more ≠ [] ∧
      ∀ arg ∈ more, arg.Grouped := by
  induction n generalizing known ls with
  | zero => cases h
  | succ n ih =>
      rw [argumentsRest] at h
      split at h
      · cases h
      · next e between he =>
        obtain ⟨taken, rfl, hspells, hat⟩ := hexpr he
        split at h
        · next offset newline ls =>
          obtain ⟨more, taken', rfl, rfl, hmore, hne, hgrouped⟩ := ih h
          obtain ⟨d, more, rfl⟩ := List.exists_cons_of_ne_nil hne
          refine ⟨e :: d :: more, taken ++ ⟨.comma, offset, newline⟩ :: taken', by simp, by simp,
            ?_, List.cons_ne_nil _ _, List.forall_mem_cons.mpr ⟨hat.grouped, hgrouped⟩⟩
          rw [Expr.marksOfArguments, List.append_assoc, List.cons_append]
          exact List.rel_append hspells (.cons (Mark.fits_free rfl) hmore)
        · next offset newline ls =>
          obtain ⟨rfl, rfl⟩ : (e :: known).reverse = args ∧ ls = rest := by simpa using h
          refine ⟨[e], taken ++ [⟨.rightParen, offset, newline⟩], by simp, by simp, ?_,
            List.cons_ne_nil e [], ?_⟩
          · rw [Expr.marksOfArguments]
            exact List.rel_append hspells (.cons (Mark.fits_free rfl) .nil)
          · simpa using hat.grouped
        · cases h

theorem reads_arguments (hexpr : ReadsAt 0 expr) (n : Nat) :
    Reads (arguments n expr) (fun args ↦ Expr.marksOfArguments args ++ [.free .rightParen])
      fun args ↦ ∀ arg ∈ args, arg.Grouped := by
  intro ls args rest h
  unfold arguments at h
  split at h
  · next offset newline ls =>
    obtain ⟨rfl, rfl⟩ : [] = args ∧ ls = rest := by simpa using h
    exact ⟨[⟨.rightParen, offset, newline⟩], rfl, .cons (Mark.fits_free rfl) .nil, nofun⟩
  · obtain ⟨more, taken, rfl, rfl, hspells, -, hgrouped⟩ := reads_argumentsRest hexpr h
    exact ⟨taken, rfl, hspells, hgrouped⟩

theorem reads_operand (hexpr : ReadsAt 0 expr) (n : Nat) : ReadsAt 3 (operand n expr) := by
  intro ls e rest h
  unfold operand at h
  split at h
  · next text offset newline ls =>
    obtain ⟨rfl, rfl⟩ : Expr.number text = e ∧ ls = rest := by simpa using h
    exact ⟨[⟨.number text, offset, newline⟩], rfl, .cons (Mark.fits_free rfl) .nil, .number,
      Nat.le_refl _⟩
  · next value offset newline ls =>
    obtain ⟨rfl, rfl⟩ : Expr.str value = e ∧ ls = rest := by simpa using h
    exact ⟨[⟨.str value, offset, newline⟩], rfl, .cons (Mark.fits_free rfl) .nil, .str,
      Nat.le_refl _⟩
  · next text offset newline offset' ls =>
    obtain ⟨args, hargs, rfl⟩ := map_eq_parsed.mp h
    obtain ⟨taken, rfl, hspells, hgrouped⟩ := reads_arguments hexpr n hargs
    refine ⟨⟨.ident text, offset, newline⟩ :: ⟨.leftParen, offset', false⟩ :: taken, rfl, ?_,
      .call hgrouped, Nat.le_refl _⟩
    exact .cons (Mark.fits_free rfl) (.cons ⟨rfl, fun _ ↦ rfl⟩ hspells)
  · next text offset newline ls _ =>
    obtain ⟨rfl, rfl⟩ : Expr.name ⟨text, offset⟩ = e ∧ ls = rest := by simpa using h
    exact ⟨[⟨.ident text, offset, newline⟩], rfl, .cons (Mark.fits_free rfl) .nil, .name,
      Nat.le_refl _⟩
  · next offset newline ls =>
    obtain ⟨inner, between, hinner, h⟩ := bind_eq_parsed.mp h
    obtain ⟨_, between', hclose, hreturn⟩ := bind_eq_parsed.mp h
    obtain ⟨l, htoken, rfl⟩ := expect_eq_parsed.mp hclose
    obtain ⟨rfl, rfl⟩ := pure_eq_parsed.mp hreturn
    obtain ⟨taken, rfl, hspells, hat⟩ := hexpr hinner
    refine ⟨⟨.leftParen, offset, newline⟩ :: (taken ++ [l]), by simp, ?_, .paren hat.grouped,
      Nat.le_refl _⟩
    exact .cons (Mark.fits_free rfl)
      (List.rel_append hspells (.cons (Mark.fits_free htoken) .nil))
  · cases h

theorem reads_expr (n : Nat) : ReadsAt 0 (Parser.expr n) := by
  induction n with
  | zero => exact nofun
  | succ n ih =>
      intro ls e rest h
      exact reads_chain ofRank_sumOp
        (reads_chain ofRank_productOp (reads_signed (reads_operand ih n)) _) _ h

end Operand

/-! ## Statements -/

theorem reads_variableKind {ls rest : List Lexeme} {kind : VariableKind}
    (h : variableKind ls = .parsed kind rest) :
    ∃ taken, ls = taken ++ rest ∧ Spells kind.marks taken := by
  unfold variableKind at h
  split at h
  · next offset newline ls =>
    obtain ⟨rfl, rfl⟩ : VariableKind.letWord = kind ∧ ls = rest := by simpa using h
    exact ⟨[⟨.keyword .letWord, offset, newline⟩], rfl, .cons (Mark.fits_free rfl) .nil⟩
  · next offset newline ls =>
    obtain ⟨rfl, rfl⟩ : VariableKind.constWord = kind ∧ ls = rest := by simpa using h
    exact ⟨[⟨.keyword .constWord, offset, newline⟩], rfl, .cons (Mark.fits_free rfl) .nil⟩
  · obtain ⟨rfl, rfl⟩ : VariableKind.bare = kind ∧ ls = rest := by simpa using h
    exact ⟨[], rfl, .nil⟩

theorem reads_initialValue (n : Nat) :
    Reads (initialValue n) initialMarks fun value ↦ ∀ e ∈ value, e.Grouped := by
  intro ls value rest h
  unfold initialValue at h
  split at h
  · next offset newline ls =>
    obtain ⟨e, he, rfl⟩ := map_eq_parsed.mp h
    obtain ⟨taken, rfl, hspells, hat⟩ := reads_expr n he
    refine ⟨⟨.assign .plain, offset, newline⟩ :: taken, rfl, .cons (Mark.fits_free rfl) hspells, ?_⟩
    rintro _ ⟨⟩
    exact hat.grouped
  · obtain ⟨rfl, rfl⟩ : none = value ∧ ls = rest := by simpa using h
    exact ⟨[], rfl, .nil, nofun⟩

theorem needsValue_eq_parsed {kind : VariableKind} {n : Name} {value : Option Expr}
    {ls rest : List Lexeme} {u : Unit} (h : needsValue kind n value ls = .parsed u rest) :
    ls = rest ∧ (kind = .letWord ∨ value.isSome = true) := by
  unfold needsValue at h
  split at h
  · cases h
  · cases h
  · next hconst hbare =>
    refine ⟨(pure_eq_parsed.mp h).2, ?_⟩
    cases kind with
    | letWord => exact .inl rfl
    | constWord => exact .inr (Option.isSome_iff_ne_none.mpr fun hnone ↦ hconst rfl hnone)
    | bare => exact .inr (Option.isSome_iff_ne_none.mpr fun hnone ↦ hbare rfl hnone)

/-- A variable that is read has a value unless it is introduced by `let`. -/
theorem reads_variableStmt {n : Nat} {isExported : Bool} {ls rest : List Lexeme} {s : Stmt}
    (h : variableStmt n isExported ls = .parsed s rest) :
    ∃ kind name value taken, s = .variable isExported kind name value ∧ ls = taken ++ rest ∧
      Spells (kind.marks ++ .free (.ident name.text) :: initialMarks value) taken ∧
      (∀ e ∈ value, e.Grouped) ∧ (kind = .letWord ∨ value.isSome = true) := by
  obtain ⟨kind, ls₁, hkind, h₁⟩ := bind_eq_parsed.mp h
  obtain ⟨n, ls₂, hname, h₂⟩ := bind_eq_parsed.mp h₁
  obtain ⟨value, ls₃, hvalue, h₃⟩ := bind_eq_parsed.mp h₂
  obtain ⟨_, ls₄, hneeds, h₄⟩ := bind_eq_parsed.mp h₃
  obtain ⟨rfl, rfl⟩ := pure_eq_parsed.mp h₄
  obtain ⟨rfl, hsome⟩ := needsValue_eq_parsed hneeds
  obtain ⟨introduction, rfl, hintroduction⟩ := reads_variableKind hkind
  obtain ⟨newline, rfl⟩ := name_eq_parsed.mp hname
  obtain ⟨taken, rfl, hspells, hgrouped⟩ := reads_initialValue _ hvalue
  refine ⟨kind, n, value, introduction ++ ⟨.ident n.text, n.offset, newline⟩ :: taken, rfl,
    by simp, ?_, hgrouped, hsome⟩
  exact List.rel_append hintroduction (.cons (Mark.fits_free rfl) hspells)

theorem reads_importStmt {ls rest : List Lexeme} {s : Stmt}
    (h : importStmt ls = .parsed s rest) :
    ∃ binding specifier offset taken, s = .imports binding specifier offset ∧ ls = taken ++ rest ∧
      Spells [.free (.ident binding.text), .free (.keyword .fromWord), .free (.str specifier)]
        taken := by
  obtain ⟨binding, ls₁, hbinding, h₁⟩ := bind_eq_parsed.mp h
  obtain ⟨_, ls₂, hfrom, h₂⟩ := bind_eq_parsed.mp h₁
  obtain ⟨newline, rfl⟩ := name_eq_parsed.mp hbinding
  obtain ⟨l, htoken, rfl⟩ := expect_eq_parsed.mp hfrom
  unfold importSpecifier at h₂
  split at h₂
  · next specifier offset newline' ls =>
    obtain ⟨rfl, rfl⟩ : Stmt.imports binding specifier offset = s ∧ ls = rest := by simpa using h₂
    refine ⟨binding, specifier, offset,
      [⟨.ident binding.text, binding.offset, newline⟩, l, ⟨.str specifier, offset, newline'⟩],
      rfl, by simp, ?_⟩
    exact .cons (Mark.fits_free rfl) (.cons (Mark.fits_free htoken)
      (.cons (Mark.fits_free rfl) .nil))
  · cases h₂

/-- A variable whose first lexeme is a keyword is not without one. -/
theorem ne_bare_of_keyword {word : Keyword} {offset : Nat} {newline : Bool} {n : Name}
    {value : Option Expr} {kind : VariableKind} {ls rest taken : List Lexeme}
    (htaken : ⟨.keyword word, offset, newline⟩ :: ls = taken ++ rest)
    (hspells : Spells (kind.marks ++ .free (.ident n.text) :: initialMarks value) taken) :
    kind ≠ .bare := by
  rintro rfl
  cases hspells with
  | cons hfits _ =>
      obtain ⟨rfl, -⟩ := List.cons.inj htaken
      exact nomatch hfits.token

theorem reads_statementBody (n : Nat) : Reads (statementBody n) Stmt.marks Stmt.Normal := by
  intro ls s rest h
  unfold statementBody at h
  split at h
  · next offset newline ls =>
    obtain ⟨binding, specifier, place, taken, rfl, rfl, hspells⟩ := reads_importStmt h
    exact ⟨⟨.keyword .importWord, offset, newline⟩ :: taken, rfl,
      .cons (Mark.fits_free rfl) hspells, .imports⟩
  · next offset newline ls =>
    obtain ⟨n, hname, rfl⟩ := map_eq_parsed.mp h
    obtain ⟨newline', rfl⟩ := name_eq_parsed.mp hname
    exact ⟨[⟨.keyword .declareWord, offset, newline⟩, ⟨.ident n.text, n.offset, newline'⟩], rfl,
      .cons (Mark.fits_free rfl) (.cons (Mark.fits_free rfl) .nil), .declares⟩
  · next offset newline ls =>
    obtain ⟨kind, n, value, taken, rfl, rfl, hspells, hgrouped, hsome⟩ := reads_variableStmt h
    exact ⟨⟨.keyword .exportWord, offset, newline⟩ :: taken, rfl,
      .cons (Mark.fits_free rfl) hspells,
      Stmt.normal_variable_iff.mpr ⟨hgrouped, hsome, fun _ ↦ rfl⟩⟩
  · obtain ⟨kind, n, value, taken, rfl, htaken, hspells, hgrouped, hsome⟩ := reads_variableStmt h
    have hbare := ne_bare_of_keyword htaken hspells
    exact ⟨taken, htaken, hspells,
      Stmt.normal_variable_iff.mpr ⟨hgrouped, hsome, fun h ↦ absurd h hbare⟩⟩
  · obtain ⟨kind, n, value, taken, rfl, htaken, hspells, hgrouped, hsome⟩ := reads_variableStmt h
    have hbare := ne_bare_of_keyword htaken hspells
    exact ⟨taken, htaken, hspells,
      Stmt.normal_variable_iff.mpr ⟨hgrouped, hsome, fun h ↦ absurd h hbare⟩⟩
  · next text offset newline op offset' newline' ls =>
    obtain ⟨value, hvalue, rfl⟩ := map_eq_parsed.mp h
    obtain ⟨taken, rfl, hspells, hat⟩ := reads_expr n hvalue
    exact ⟨⟨.ident text, offset, newline⟩ :: ⟨.assign op, offset', newline'⟩ :: taken, rfl,
      .cons (Mark.fits_free rfl) (.cons (Mark.fits_free rfl) hspells), .assign hat.grouped⟩
  · obtain ⟨e, he, rfl⟩ := map_eq_parsed.mp h
    obtain ⟨taken, rfl, hspells, hat⟩ := reads_expr n he
    exact ⟨taken, rfl, hspells, .expr hat.grouped⟩

/-- A statement ends where it may, and at most a semicolon is taken behind it. -/
theorem statementEnd_eq_parsed {ls rest : List Lexeme} {u : Unit}
    (h : statementEnd ls = .parsed u rest) :
    Closes ls ∧ ∃ ending, ls = ending ++ rest ∧ ∀ l ∈ ending, l.token = .semicolon := by
  unfold statementEnd at h
  split at h
  · obtain ⟨⟩ : [] = rest := by simpa using h
    exact ⟨nofun, [], rfl, nofun⟩
  · next l ls =>
    split at h
    · next htoken =>
      obtain rfl : ls = rest := by simpa using h
      refine ⟨?_, [l], rfl, by simpa using htoken⟩
      rintro _ ⟨⟩
      exact .inl htoken
    · split at h
      · next hnewline =>
        obtain rfl : l :: ls = rest := by simpa using h
        refine ⟨?_, [], rfl, nofun⟩
        rintro _ ⟨⟩
        exact .inr hnewline
      · cases h

theorem reads_statement {n : Nat} {ls rest : List Lexeme} {s : Stmt}
    (h : statement n ls = .parsed s rest) :
    ∃ taken ending, ls = taken ++ (ending ++ rest) ∧ Spells s.marks taken ∧ s.Normal ∧
      Closes (ending ++ rest) ∧ ∀ l ∈ ending, l.token = .semicolon := by
  obtain ⟨s', between, hbody, h₁⟩ := bind_eq_parsed.mp h
  obtain ⟨_, rest', hend, h₂⟩ := bind_eq_parsed.mp h₁
  obtain ⟨rfl, rfl⟩ := pure_eq_parsed.mp h₂
  obtain ⟨taken, rfl, hspells, hnormal⟩ := reads_statementBody n hbody
  obtain ⟨hcloses, ending, rfl, hending⟩ := statementEnd_eq_parsed hend
  exact ⟨taken, ending, rfl, hspells, hnormal, hcloses, hending⟩

end Parser

/-! ## Modules -/

theorem Laid.semicolons {ss : List Stmt} {ending rest : List Lexeme}
    (h : ∀ l ∈ ending, l.token = .semicolon) (hrest : Laid ss rest) : Laid ss (ending ++ rest) := by
  induction ending with
  | nil => exact hrest
  | cons l ending ih =>
      rw [List.forall_mem_cons] at h
      exact .semicolon h.1 (ih h.2)

namespace SyntaxTree

/-- Errors that have been found stay. -/
theorem errors_suffix_readFrom (size n : Nat) (t : SyntaxTree) (ls : List Lexeme) :
    t.errors <:+ (readFrom size n t ls).errors := by
  induction n generalizing t ls with
  | zero => exact List.suffix_refl _
  | succ n ih =>
      cases ls with
      | nil => exact List.suffix_refl _
      | cons l ls =>
          rw [readFrom]
          split
          · exact ih t ls
          · split
            · next s rest _ => exact ih { t with statements := s :: t.statements } rest
            · next fault rest _ =>
              exact (List.suffix_cons _ _).trans
                (ih { t with errors := ⟨fault.offset size rest, .parse fault⟩ :: t.errors } _)

/-- What is read without errors is statements that are laid out one behind the other. -/
theorem laid_readFrom {size n : Nat} {t : SyntaxTree} {ls : List Lexeme} (hlength : ls.length ≤ n)
    (h : (readFrom size n t ls).errors = []) :
    ∃ ss, (readFrom size n t ls).statements = ss.reverse ++ t.statements ∧ Laid ss ls ∧
      ∀ s ∈ ss, s.Normal := by
  induction n generalizing t ls with
  | zero =>
      obtain rfl := List.eq_nil_of_length_eq_zero (Nat.le_zero.mp hlength)
      exact ⟨[], rfl, .nil, nofun⟩
  | succ n ih =>
      cases ls with
      | nil => exact ⟨[], rfl, .nil, nofun⟩
      | cons l ls =>
          rw [readFrom] at h ⊢
          split at h
          · next htoken =>
            rw [if_pos htoken]
            obtain ⟨ss, hss, hlaid, hnormal⟩ := ih (Nat.le_of_succ_le_succ hlength) h
            exact ⟨ss, hss, .semicolon htoken hlaid, hnormal⟩
          · next htoken =>
            rw [if_neg htoken]
            cases hread : Parser.statement (n + 1) (l :: ls) with
            | parsed s rest =>
                rw [hread] at h
                obtain ⟨taken, ending, happend, hspells, hs, hcloses, hending⟩ :=
                  Parser.reads_statement hread
                -- a statement takes a lexeme, so the bound is enough for what is left
                have htaken : 0 < taken.length := by
                  obtain ⟨m, ms, hmarks, -⟩ := s.marks_eq_cons
                  rw [← hspells.length_eq, hmarks]
                  exact Nat.succ_pos _
                have hrest : rest.length ≤ n := by
                  have hsum := congrArg List.length happend
                  simp only [List.length_append] at hsum
                  omega
                obtain ⟨ss, hss, hlaid, hnormal⟩ := ih hrest h
                refine ⟨s :: ss, ?_, ?_, List.forall_mem_cons.mpr ⟨hs, hnormal⟩⟩
                · show (readFrom size n { t with statements := s :: t.statements } rest).statements
                    = _
                  rw [hss]
                  simp
                · rw [happend]
                  exact .statement hspells hcloses (hlaid.semicolons hending)
            | failed fault rest =>
                rw [hread] at h
                have hstay := errors_suffix_readFrom size n
                  { t with errors := ⟨fault.offset size rest, .parse fault⟩ :: t.errors }
                  (recover (l :: ls) rest)
                exact absurd (List.eq_nil_of_suffix_nil (h ▸ hstay)) (List.cons_ne_nil _ _)

theorem laid_ofLexemes {size : Nat} {ls : List Lexeme} (h : (ofLexemes size ls).errors = []) :
    Laid (ofLexemes size ls).statements ls ∧ ∀ s ∈ (ofLexemes size ls).statements, s.Normal := by
  obtain ⟨ss, hss, hlaid, hnormal⟩ :=
    laid_readFrom (t := ⟨[], []⟩) (Nat.le_refl ls.length) (List.reverse_eq_nil_iff.mp h)
  have hstatements : (ofLexemes size ls).statements = ss := by
    rw [ofLexemes, hss]
    simp
  rw [hstatements]
  exact ⟨hlaid, hnormal⟩

theorem sortErrors_eq_nil {es : List SyntaxError} : sortErrors es = [] ↔ es = [] := by
  rw [← List.length_eq_zero_iff, sortErrors, List.length_mergeSort, List.length_eq_zero_iff]

/-- A scan is read without errors just if nothing is wrong with its characters and its lexemes. -/
theorem ofScan_errors_eq_nil {s : Scan} :
    (ofScan s).errors = [] ↔ s.errors = [] ∧ (ofLexemes s.size s.lexemes).errors = [] := by
  rw [ofScan, sortErrors_eq_nil, List.append_eq_nil_iff, List.map_eq_nil_iff]

end SyntaxTree

end PipedCompiler.Language
