import PipedCompiler.Proofs.Language.Names
import PipedCompiler.Proofs.Language.Partition
import PipedCompiler.Proofs.Language.Remainder
import PipedCompiler.Proofs.Language.Slices

/-!
# Names in the order of the text

A parser takes the names ahead in their order, and keeps each of them in what it reads.  So the
names of a module stand in it as they stand in its text.
-/

namespace PipedCompiler.Language

open PipedCompiler.Text

variable {α β : Type}

/-- The identifier that a token is. -/
def Token.name? : Token → Option String
  | .ident text => some text
  | _ => none

/-- The names among lexemes. -/
def namesAhead (ls : List Lexeme) : List Name :=
  ls.filterMap fun l ↦ l.token.name?.map fun text ↦ ⟨text, l.offset⟩

theorem namesAhead_cons_of_none {l : Lexeme} {t : Token} (htoken : l.token = t)
    (h : t.name? = none) (ls : List Lexeme) : namesAhead (l :: ls) = namesAhead ls :=
  List.filterMap_cons_none (by rw [htoken, h]; rfl)

/-- The names in a statement, in order. -/
def Stmt.names (s : Stmt) : List Name :=
  (s.declaration?.map Prod.fst).toList ++ s.uses.map Use.name

theorem Use.name_comp_read : Use.name ∘ Use.read = id := rfl

theorem Stmt.names_variable (isExported : Bool) (kind : VariableKind) (name : Name)
    (value : Option Expr) :
    (Stmt.variable isExported kind name value).names =
      name :: value.toList.flatMap Expr.names := by
  cases kind <;> cases value <;> simp [Stmt.names, Stmt.declaration?, Stmt.uses, Use.name_comp_read]

theorem Stmt.names_assign (target : Name) (op : AssignOp) (value : Expr) :
    (Stmt.assign target op value).names = target :: value.names := by
  simp [Stmt.names, Stmt.declaration?, Stmt.uses, Use.name_comp_read, Use.name]

theorem Stmt.names_expr (e : Expr) : (Stmt.expr e).names = e.names := by
  simp [Stmt.names, Stmt.declaration?, Stmt.uses, Use.name_comp_read]

namespace Parser

/-- Whether the names ahead are those in what a parser reads and those it leaves. -/
def Collects (p : Parser α) (names : α → List Name) : Prop :=
  ∀ ⦃ls a rest⦄, p ls = .parsed a rest → namesAhead ls = names a ++ namesAhead rest

theorem collects_expect {t : Token} {mark : String} (ht : t.name? = none) :
    Collects (expect t mark) fun _ ↦ [] := by
  intro ls u rest h
  obtain ⟨l, htoken, rfl⟩ := expect_eq_parsed.mp h
  exact namesAhead_cons_of_none htoken ht rest

theorem collects_name : Collects name fun n ↦ [n] := by
  intro ls n rest h
  obtain ⟨newline, rfl⟩ := name_eq_parsed.mp h
  rfl

/-! ## Expressions -/

section Expressions

variable {k : Nat} {op? : Token → Option BinaryOp} {operand expr : Parser Expr}

theorem namesAhead_chainRest (hop : OfRank k op?) (hoperand : Collects operand Expr.names) {n : Nat}
    {lhs e : Expr} {ls rest : List Lexeme} (h : chainRest op? operand n lhs ls = .parsed e rest) :
    lhs.names ++ namesAhead ls = e.names ++ namesAhead rest := by
  induction n generalizing lhs ls with
  | zero =>
      obtain ⟨rfl, rfl⟩ : lhs = e ∧ ls = rest := by simpa [chainRest] using h
      rfl
  | succ n ih =>
      cases ls with
      | nil =>
          obtain ⟨rfl, rfl⟩ : lhs = e ∧ [] = rest := by simpa [chainRest] using h
          rfl
      | cons l ls =>
          rw [chainRest] at h
          split at h
          · obtain ⟨rfl, rfl⟩ : lhs = e ∧ l :: ls = rest := by simpa using h
            rfl
          · next op hsome =>
            split at h
            · next rhs between hrhs =>
              rw [namesAhead_cons_of_none ((hop _ _).mp hsome).1 rfl, hoperand hrhs, ← ih h,
                Expr.names, List.append_assoc]
            · cases h

theorem collects_chain (hop : OfRank k op?) (hoperand : Collects operand Expr.names) (n : Nat) :
    Collects (chain n op? operand) Expr.names := by
  intro ls e rest h
  obtain ⟨lhs, between, hlhs, hrest⟩ := bind_eq_parsed.mp h
  rw [hoperand hlhs, namesAhead_chainRest hop hoperand hrest]

theorem collects_signed (hoperand : Collects operand Expr.names) :
    Collects (signed operand) Expr.names := by
  intro ls e rest h
  induction ls generalizing e with
  | nil => exact hoperand h
  | cons l ls ih =>
      rw [signed] at h
      split at h
      · next htoken =>
        split at h
        · next inner between hinner =>
          obtain ⟨rfl, rfl⟩ : Expr.neg inner = e ∧ between = rest := by simpa using h
          rw [namesAhead_cons_of_none htoken rfl, ih hinner, Expr.names]
        · cases h
      · exact hoperand h

theorem namesAhead_argumentsRest (hexpr : Collects expr Expr.names) {n : Nat}
    {known args : List Expr} {ls rest : List Lexeme}
    (h : argumentsRest expr n known ls = .parsed args rest) :
    known.reverse.flatMap Expr.names ++ namesAhead ls =
      args.flatMap Expr.names ++ namesAhead rest := by
  induction n generalizing known ls with
  | zero => cases h
  | succ n ih =>
      rw [argumentsRest] at h
      split at h
      · cases h
      · next e between he =>
        rw [hexpr he]
        split at h
        · next offset newline ls =>
          rw [← ih h]
          simp [namesAhead, Token.name?]
        · next offset newline ls =>
          obtain ⟨rfl, rfl⟩ : (e :: known).reverse = args ∧ ls = rest := by simpa using h
          simp [namesAhead, Token.name?]
        · cases h

theorem collects_arguments (hexpr : Collects expr Expr.names) (n : Nat) :
    Collects (arguments n expr) fun args ↦ args.flatMap Expr.names := by
  intro ls args rest h
  unfold arguments at h
  split at h
  · next offset newline ls =>
    obtain ⟨rfl, rfl⟩ : [] = args ∧ ls = rest := by simpa using h
    rfl
  · exact namesAhead_argumentsRest hexpr h

theorem collects_operand (hexpr : Collects expr Expr.names) (n : Nat) :
    Collects (Parser.operand n expr) Expr.names := by
  intro ls e rest h
  unfold Parser.operand at h
  split at h
  · cases h
    rfl
  · cases h
    rfl
  · next text offset newline offset' ls =>
    obtain ⟨args, hargs, rfl⟩ := map_eq_parsed.mp h
    rw [Expr.names, Expr.namesOfList_eq, List.cons_append, ← collects_arguments hexpr n hargs]
    rfl
  · cases h
    rfl
  · next offset newline ls =>
    obtain ⟨inner, between, hinner, h⟩ := bind_eq_parsed.mp h
    obtain ⟨_, between', hclose, hreturn⟩ := bind_eq_parsed.mp h
    obtain ⟨rfl, rfl⟩ := pure_eq_parsed.mp hreturn
    rw [namesAhead_cons_of_none rfl rfl, hexpr hinner, collects_expect rfl hclose, Expr.names]
    rfl
  · cases h

theorem collects_expr (n : Nat) : Collects (Parser.expr n) Expr.names := by
  induction n with
  | zero => exact nofun
  | succ n ih =>
      intro ls e rest h
      exact collects_chain ofRank_sumOp
        (collects_chain ofRank_productOp (collects_signed (collects_operand ih n)) _) _ h

end Expressions

/-! ## Statements -/

theorem collects_variableKind : Collects variableKind fun _ ↦ [] := by
  intro ls kind rest h
  unfold variableKind at h
  split at h <;> cases h <;> rfl

theorem collects_initialValue (n : Nat) :
    Collects (initialValue n) fun value ↦ value.toList.flatMap Expr.names := by
  intro ls value rest h
  unfold initialValue at h
  split at h
  · obtain ⟨e, he, rfl⟩ := map_eq_parsed.mp h
    rw [namesAhead_cons_of_none rfl rfl, collects_expr n he]
    simp
  · cases h
    rfl

theorem collects_variableStmt (n : Nat) (isExported : Bool) :
    Collects (variableStmt n isExported) Stmt.names := by
  intro ls s rest h
  obtain ⟨kind, ls₁, hkind, h₁⟩ := bind_eq_parsed.mp h
  obtain ⟨name, ls₂, hname, h₂⟩ := bind_eq_parsed.mp h₁
  obtain ⟨value, ls₃, hvalue, h₃⟩ := bind_eq_parsed.mp h₂
  obtain ⟨_, ls₄, hneeds, h₄⟩ := bind_eq_parsed.mp h₃
  obtain ⟨rfl, rfl⟩ := pure_eq_parsed.mp h₄
  obtain ⟨rfl, -⟩ := needsValue_eq_parsed hneeds
  rw [collects_variableKind hkind, collects_name hname, collects_initialValue _ hvalue,
    Stmt.names_variable]
  rfl

theorem collects_importStmt : Collects importStmt Stmt.names := by
  intro ls s rest h
  obtain ⟨binding, ls₁, hbinding, h₁⟩ := bind_eq_parsed.mp h
  obtain ⟨_, ls₂, hfrom, h₂⟩ := bind_eq_parsed.mp h₁
  rw [collects_name hbinding, collects_expect rfl hfrom]
  unfold importSpecifier at h₂
  split at h₂ <;> cases h₂
  rfl

theorem collects_statementBody (n : Nat) : Collects (statementBody n) Stmt.names := by
  intro ls s rest h
  unfold statementBody at h
  split at h
  · rw [namesAhead_cons_of_none rfl rfl, collects_importStmt h]
  · obtain ⟨name, hname, rfl⟩ := map_eq_parsed.mp h
    rw [namesAhead_cons_of_none rfl rfl, collects_name hname]
    rfl
  · rw [namesAhead_cons_of_none rfl rfl, collects_variableStmt n true h]
  · exact collects_variableStmt n false h
  · exact collects_variableStmt n false h
  · next text offset newline op offset' newline' ls =>
    obtain ⟨value, hvalue, rfl⟩ := map_eq_parsed.mp h
    rw [Stmt.names_assign, List.cons_append, ← collects_expr n hvalue]
    rfl
  · obtain ⟨e, he, rfl⟩ := map_eq_parsed.mp h
    rw [Stmt.names_expr, collects_expr n he]

theorem collects_statementEnd : Collects statementEnd fun _ ↦ [] := by
  intro ls u rest h
  obtain ⟨-, ending, rfl, hending⟩ := statementEnd_eq_parsed h
  clear h
  induction ending with
  | nil => rfl
  | cons l ending ih =>
      rw [List.forall_mem_cons] at hending
      rw [List.cons_append, namesAhead_cons_of_none hending.1 rfl]
      exact ih hending.2

theorem collects_statement (n : Nat) : Collects (statement n) Stmt.names := by
  intro ls s rest h
  obtain ⟨s', between, hbody, h₁⟩ := bind_eq_parsed.mp h
  obtain ⟨_, rest', hend, h₂⟩ := bind_eq_parsed.mp h₁
  obtain ⟨rfl, rfl⟩ := pure_eq_parsed.mp h₂
  rw [collects_statementBody n hbody, collects_statementEnd hend]
  rfl

end Parser

/-! ## Modules -/

/-- The names of the statements that are read are names ahead, in their order. -/
theorem SyntaxTree.names_readFrom (size n : Nat) (t : SyntaxTree) (ls : List Lexeme) :
    ((readFrom size n t ls).statements.reverse.flatMap Stmt.names).Sublist
      (t.statements.reverse.flatMap Stmt.names ++ namesAhead ls) := by
  induction n generalizing t ls with
  | zero => exact List.sublist_append_left _ _
  | succ n ih =>
      cases ls with
      | nil => exact List.sublist_append_left _ _
      | cons l ls =>
          rw [readFrom]
          split
          · next htoken =>
            rw [namesAhead_cons_of_none htoken rfl]
            exact ih t ls
          · split
            · next s rest hread =>
              rw [Parser.collects_statement _ hread]
              have h := ih { t with statements := s :: t.statements } rest
              simpa using h
            · next fault rest hread =>
              have hleaves := Parser.leaves_statement (n + 1) (l :: ls)
              rw [hread] at hleaves
              refine (ih _ _).trans ?_
              exact (List.Sublist.refl _).append
                ((recover_suffix hleaves.2).sublist.filterMap _)

theorem SyntaxTree.names_ofScan (scan : Scan) :
    ((ofScan scan).statements.flatMap Stmt.names).Sublist (namesAhead scan.lexemes) := by
  have h := names_readFrom scan.size scan.lexemes.length ⟨[], []⟩ scan.lexemes
  rwa [List.reverse_nil, List.flatMap_nil, List.nil_append] at h

/-- A name that is ahead is a lexeme. -/
theorem exists_of_mem_namesAhead {n : Name} {ls : List Lexeme} (h : n ∈ namesAhead ls) :
    ∃ l ∈ ls, l.token = .ident n.text ∧ l.offset = n.offset := by
  obtain ⟨⟨token, offset, newline⟩, hl, hname⟩ := List.mem_filterMap.mp h
  obtain ⟨text, htext, rfl⟩ := Option.map_eq_some_iff.mp hname
  refine ⟨_, hl, ?_, rfl⟩
  cases token with
  | ident text' => rw [Option.some.inj htext]
  | _ => cases htext

section Texts

variable {cs : List Char} {tree : SyntaxTree}

/-- A name of a module that is read from a text is a word of the text, at its place. -/
theorem SyntaxTree.wordAt_of_mem_names (h : SyntaxTree.ofText? cs = some tree) {n : Name}
    (hn : n ∈ tree.statements.flatMap Stmt.names) : WordAt cs n.offset n.text := by
  obtain ⟨scan, hscan, rfl⟩ := Option.map_eq_some_iff.mp h
  obtain ⟨l, hl, htoken, hoffset⟩ :=
    exists_of_mem_namesAhead ((SyntaxTree.names_ofScan scan).subset hn)
  obtain ⟨-, rfl⟩ := Scan.ofText?_eq_some_iff.mp hscan
  rw [← hoffset]
  exact Scan.wordAt_of_mem_lexemes hl htoken

/-- The names of a module that is read from a text stand in it as they stand in the text. -/
theorem SyntaxTree.pairwise_names (h : SyntaxTree.ofText? cs = some tree) :
    (tree.statements.flatMap Stmt.names).Pairwise fun n n' ↦ n.offset < n'.offset := by
  obtain ⟨scan, hscan, rfl⟩ := Option.map_eq_some_iff.mp h
  obtain ⟨cells, last, hpartition, rfl⟩ := Scan.exists_partition_of_ofText? hscan
  have hoffsets := (List.pairwise_append.mp (hpartition.offsets []).1).1
  rw [List.pairwise_map] at hoffsets
  refine List.Pairwise.sublist (SyntaxTree.names_ofScan _) ?_
  rw [namesAhead, List.pairwise_filterMap]
  refine hoffsets.imp fun {l l'} hlt n hn n' hn' ↦ ?_
  obtain ⟨text, -, rfl⟩ := Option.map_eq_some_iff.mp hn
  obtain ⟨text', -, rfl⟩ := Option.map_eq_some_iff.mp hn'
  exact hlt

end Texts

end PipedCompiler.Language
