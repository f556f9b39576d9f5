import PipedCompiler.Proofs.Language.Reading

/-!
# What is left

A parser leaves an end of the lexemes that it is given, also where it finds a fault.  So each
statement of a module is spelled by neighbouring lexemes of its text, whatever else is wrong with
that; and what is wrong is that one of a few marks is missing, if it is a mark.
-/

namespace PipedCompiler.Language

variable {α β : Type}

/-- The marks that can be missing. -/
def expectedMarks : List String := [")", "=", "from", ";"]

/-- Whether a fault is one that texts have: a mark that is missing is one of a few. -/
def ParseFault.IsKnown : ParseFault → Prop
  | .expected mark => mark ∈ expectedMarks
  | _ => True

/-- Whether an outcome leaves an end of lexemes, and its fault is known if it has one. -/
def Outcome.LeavesEnd (ls : List Lexeme) : Outcome α → Prop
  | .parsed _ rest => rest <:+ ls
  | .failed fault rest => fault.IsKnown ∧ rest <:+ ls

theorem Outcome.LeavesEnd.trans {o : Outcome α} {ls more : List Lexeme} (h : o.LeavesEnd ls)
    (hls : ls <:+ more) : o.LeavesEnd more := by
  cases o with
  | parsed a rest => exact List.IsSuffix.trans h hls
  | failed fault rest => exact ⟨h.1, h.2.trans hls⟩

namespace Parser

/-- Whether a parser leaves an end of what it is given, and finds known faults only. -/
def Leaves (p : Parser α) : Prop :=
  ∀ ls, (p ls).LeavesEnd ls

namespace Leaves

theorem bind {p : Parser α} {next : α → Parser β} (hp : Leaves p) (hnext : ∀ a, Leaves (next a)) :
    Leaves (p >>= next) := by
  intro ls
  show (Parser.bind p next ls).LeavesEnd ls
  have h := hp ls
  rw [Parser.bind]
  cases hread : p ls with
  | parsed a rest =>
      rw [hread] at h
      exact (hnext a rest).trans h
  | failed fault rest =>
      rw [hread] at h
      exact h

theorem pure (a : α) : Leaves (Pure.pure a : Parser α) :=
  fun _ ↦ List.suffix_refl _

theorem map {f : α → β} {p : Parser α} (hp : Leaves p) : Leaves (f <$> p) :=
  bind hp fun a ↦ pure (f a)

theorem fail {fault : ParseFault} (h : fault.IsKnown) : Leaves (Parser.fail fault : Parser α) :=
  fun _ ↦ ⟨h, List.suffix_refl _⟩

end Leaves

theorem leaves_expect (t : Token) {mark : String} (hmark : mark ∈ expectedMarks) :
    Leaves (expect t mark) := by
  intro ls
  unfold expect
  split
  · exact ⟨hmark, List.suffix_refl _⟩
  · split
    · exact List.suffix_cons _ _
    · exact ⟨hmark, List.suffix_refl _⟩

theorem leaves_name : Leaves name := by
  intro ls
  unfold name
  split
  · exact List.suffix_cons _ _
  · exact ⟨trivial, List.suffix_refl _⟩

/-! ## Expressions -/

section Expressions

variable {op? : Token → Option BinaryOp} {operand expr : Parser Expr}

theorem leaves_chainRest (hoperand : Leaves operand) (n : Nat) (lhs : Expr) :
    Leaves (chainRest op? operand n lhs) := by
  intro ls
  induction n generalizing lhs ls with
  | zero => exact List.suffix_refl _
  | succ n ih =>
      cases ls with
      | nil => exact List.suffix_refl _
      | cons l ls =>
          rw [chainRest]
          have h := hoperand ls
          split
          · exact List.suffix_refl _
          · split
            · next hread =>
              rw [hread] at h
              exact ((ih _ _).trans h).trans (List.suffix_cons _ _)
            · next hread =>
              rw [hread] at h
              exact ⟨h.1, h.2.trans (List.suffix_cons _ _)⟩

theorem leaves_chain (hoperand : Leaves operand) (n : Nat) : Leaves (chain n op? operand) :=
  .bind hoperand (leaves_chainRest hoperand n)

theorem leaves_signed (hoperand : Leaves operand) : Leaves (signed operand) := by
  intro ls
  induction ls with
  | nil => exact hoperand []
  | cons l ls ih =>
      rw [signed]
      split
      · split
        · next hread =>
          rw [hread] at ih
          exact List.IsSuffix.trans ih (List.suffix_cons _ _)
        · next hread =>
          rw [hread] at ih
          exact ⟨ih.1, ih.2.trans (List.suffix_cons _ _)⟩
      · exact hoperand _

theorem leaves_argumentsRest (hexpr : Leaves expr) (n : Nat) (known : List Expr) :
    Leaves (argumentsRest expr n known) := by
  intro ls
  induction n generalizing known ls with
  | zero => exact ⟨trivial, List.suffix_refl _⟩
  | succ n ih =>
      rw [argumentsRest]
      have h := hexpr ls
      split
      · next hread =>
        rw [hread] at h
        exact h
      · next hread =>
        rw [hread] at h
        split
        · exact ((ih _ _).trans (List.suffix_cons _ _)).trans h
        · exact (List.suffix_cons _ _).trans h
        · exact ⟨.head _, h⟩

theorem leaves_arguments (hexpr : Leaves expr) (n : Nat) : Leaves (arguments n expr) := by
  intro ls
  unfold arguments
  split
  · exact List.suffix_cons _ _
  · exact leaves_argumentsRest hexpr n [] _

theorem leaves_operand (hexpr : Leaves expr) (n : Nat) : Leaves (Parser.operand n expr) := by
  intro ls
  unfold Parser.operand
  split
  · exact List.suffix_cons _ _
  · exact List.suffix_cons _ _
  · exact (Leaves.map (leaves_arguments hexpr n) _).trans ((List.suffix_cons _ _).trans
      (List.suffix_cons _ _))
  · exact List.suffix_cons _ _
  · exact (Leaves.bind hexpr (fun _ ↦ .bind (leaves_expect _ (.head _)) fun _ ↦ .pure _) _).trans
      (List.suffix_cons _ _)
  · exact ⟨trivial, List.suffix_refl _⟩

theorem leaves_expr (n : Nat) : Leaves (Parser.expr n) := by
  induction n with
  | zero => exact fun _ ↦ ⟨trivial, List.suffix_refl _⟩
  | succ n ih =>
      exact fun ls ↦ leaves_chain (leaves_chain (leaves_signed (leaves_operand ih n)) _) _ ls

end Expressions

/-! ## Statements -/

theorem leaves_variableKind : Leaves variableKind := by
  intro ls
  unfold variableKind
  split
  · exact List.suffix_cons _ _
  · exact List.suffix_cons _ _
  · exact List.suffix_refl _

theorem leaves_initialValue (n : Nat) : Leaves (initialValue n) := by
  intro ls
  unfold initialValue
  split
  · exact (Leaves.map (leaves_expr n) _).trans (List.suffix_cons _ _)
  · exact List.suffix_refl _

theorem leaves_needsValue (kind : VariableKind) (n : Name) (value : Option Expr) :
    Leaves (needsValue kind n value) := by
  unfold needsValue
  split
  · exact .fail trivial
  · exact .fail (.tail _ (.head _))
  · exact .pure ()

theorem leaves_variableStmt (n : Nat) (isExported : Bool) : Leaves (variableStmt n isExported) :=
  .bind leaves_variableKind fun _ ↦ .bind leaves_name fun _ ↦ .bind (leaves_initialValue n)
    fun _ ↦ .bind (leaves_needsValue _ _ _) fun _ ↦ .pure _

theorem leaves_importSpecifier (binding : Name) : Leaves (importSpecifier binding) := by
  intro ls
  unfold importSpecifier
  split
  · exact List.suffix_cons _ _
  · exact ⟨trivial, List.suffix_refl _⟩

theorem leaves_importStmt : Leaves importStmt :=
  .bind leaves_name fun _ ↦ .bind (leaves_expect _ (.tail _ (.tail _ (.head _))))
    fun _ ↦ leaves_importSpecifier _

theorem leaves_statementBody (n : Nat) : Leaves (statementBody n) := by
  intro ls
  unfold statementBody
  split
  · exact (leaves_importStmt _).trans (List.suffix_cons _ _)
  · exact (Leaves.map leaves_name _).trans (List.suffix_cons _ _)
  · exact (leaves_variableStmt n true _).trans (List.suffix_cons _ _)
  · exact leaves_variableStmt n false _
  · exact leaves_variableStmt n false _
  · exact (Leaves.map (leaves_expr n) _).trans ((List.suffix_cons _ _).trans
      (List.suffix_cons _ _))
  · exact Leaves.map (leaves_expr n) _

theorem leaves_statementEnd : Leaves statementEnd := by
  intro ls
  unfold statementEnd
  split
  · exact List.suffix_refl _
  · split
    · exact List.suffix_cons _ _
    · split
      · exact List.suffix_refl _
      · exact ⟨.tail _ (.tail _ (.tail _ (.head _))), List.suffix_refl _⟩

theorem leaves_statement (n : Nat) : Leaves (statement n) :=
  .bind (leaves_statementBody n) fun _ ↦ .bind leaves_statementEnd fun _ ↦ .pure _

end Parser

theorem skipStatement_suffix (ls : List Lexeme) : skipStatement ls <:+ ls := by
  induction ls with
  | nil => exact List.suffix_refl _
  | cons l ls ih =>
      rw [skipStatement]
      split
      · exact List.suffix_refl _
      · split
        · exact List.suffix_cons _ _
        · exact ih.trans (List.suffix_cons _ _)

theorem recover_suffix {start rest : List Lexeme} (h : rest <:+ start) :
    recover start rest <:+ start := by
  unfold recover
  refine (skipStatement_suffix _).trans ?_
  split
  · exact (List.tail_suffix rest).trans h
  · exact h

/-! ## Modules -/

namespace SyntaxTree

/-- Every statement is one of the grammar and is spelled by neighbouring lexemes. -/
theorem spelled_readFrom {size n : Nat} {t : SyntaxTree} {ls : List Lexeme} {s : Stmt}
    (hs : s ∈ (readFrom size n t ls).statements) :
    s ∈ t.statements ∨ s.Normal ∧ ∃ taken, taken <:+: ls ∧ Spells s.marks taken := by
  induction n generalizing t ls with
  | zero => exact .inl hs
  | succ n ih =>
      cases ls with
      | nil => exact .inl hs
      | cons l ls =>
          -- what is read from an end of the lexemes is read from them
          have later : ∀ (t' : SyntaxTree) {rest : List Lexeme}, rest <:+ l :: ls →
              s ∈ (readFrom size n t' rest).statements →
              s ∈ t'.statements ∨
                s.Normal ∧ ∃ taken, taken <:+: l :: ls ∧ Spells s.marks taken := by
            intro t' rest hrest hs
            refine (ih hs).imp_right ?_
            rintro ⟨hnormal, taken, htaken, hspells⟩
            exact ⟨hnormal, taken, htaken.trans hrest.isInfix, hspells⟩
          rw [readFrom] at hs
          split at hs
          · exact later t (List.suffix_cons _ _) hs
          · have hleaves := Parser.leaves_statement (n + 1) (l :: ls)
            split at hs
            · next s' rest hread =>
              rw [hread] at hleaves
              obtain ⟨taken, ending, happend, hspells, hnormal, -, -⟩ :=
                Parser.reads_statement hread
              obtain hstatements | hlater := later _ hleaves hs
              · obtain rfl | hstatements := List.mem_cons.mp hstatements
                · exact .inr ⟨hnormal, taken, happend ▸ (List.prefix_append _ _).isInfix, hspells⟩
                · exact .inl hstatements
              · exact .inr hlater
            · next fault rest hread =>
              rw [hread] at hleaves
              exact later { t with errors := ⟨fault.offset size rest, .parse fault⟩ :: t.errors }
                (recover_suffix hleaves.2) hs

/-- The faults that reading finds are known. -/
theorem known_readFrom {size n : Nat} {t : SyntaxTree} {ls : List Lexeme}
    (ht : ∀ e ∈ t.errors, ∀ fault, e.fault = .parse fault → fault.IsKnown) :
    ∀ e ∈ (readFrom size n t ls).errors, ∀ fault, e.fault = .parse fault → fault.IsKnown := by
  induction n generalizing t ls with
  | zero => exact ht
  | succ n ih =>
      cases ls with
      | nil => exact ht
      | cons l ls =>
          rw [readFrom]
          split
          · exact ih ht
          · have hleaves := Parser.leaves_statement (n + 1) (l :: ls)
            split
            · exact ih ht
            · next fault rest hread =>
              rw [hread] at hleaves
              refine ih (List.forall_mem_cons.mpr ⟨?_, ht⟩)
              rintro _ ⟨⟩
              exact hleaves.1

theorem known_of_mem_errors {scan : Scan} {e : SyntaxError} (he : e ∈ (ofScan scan).errors)
    {fault : ParseFault} (hfault : e.fault = .parse fault) : fault.IsKnown := by
  rcases List.mem_append.mp (List.mem_mergeSort.mp he) with he | he
  · obtain ⟨lexical, -, rfl⟩ := List.mem_map.mp he
    cases hfault
  · exact known_readFrom (t := ⟨[], []⟩) nofun e (List.mem_reverse.mp he) fault hfault

theorem spelled_of_mem_statements {scan : Scan} {s : Stmt} (hs : s ∈ (ofScan scan).statements) :
    s.Normal ∧ ∃ taken, taken <:+: scan.lexemes ∧ Spells s.marks taken := by
  have hs' := List.mem_reverse.mp hs
  exact (spelled_readFrom hs').resolve_left nofun

end SyntaxTree

end PipedCompiler.Language
