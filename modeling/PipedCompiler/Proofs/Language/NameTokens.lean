import PipedCompiler.Proofs.Language.Names
import PipedCompiler.Proofs.Language.Writing

/-!
# Names as tokens

A name that a module declares or uses is a token of it, and so a single word.
-/

namespace PipedCompiler.Language

open PipedCompiler.Text

/-- The names used in an expression are among its tokens. -/
theorem Expr.ident_mem_marks (e : Expr) : ∀ n ∈ e.names, .free (.ident n.text) ∈ e.marks := by
  induction e with
  | number text => exact List.forall_mem_nil _
  | str value => exact List.forall_mem_nil _
  | name n => simp [Expr.names, Expr.marks]
  | neg operand ih => exact fun n hn ↦ .tail _ (ih n hn)
  | binary op lhs rhs hlhs hrhs =>
      rw [Expr.names, Expr.marks, List.forall_mem_append]
      exact ⟨fun n hn ↦ List.mem_append_left _ (hlhs n hn),
        fun n hn ↦ List.mem_append_right _ (.tail _ (hrhs n hn))⟩
  | call callee args ih =>
      have hargs (es : List Expr) (hes : ∀ e ∈ es, e ∈ args) :
          ∀ n ∈ Expr.namesOfList es, .free (.ident n.text) ∈ Expr.marksOfArguments args := by
        induction es with
        | nil => exact List.forall_mem_nil _
        | cons e es ihes =>
            rw [List.forall_mem_cons] at hes
            rw [Expr.namesOfList, List.forall_mem_append]
            exact ⟨fun n hn ↦ Expr.mem_marksOfArguments hes.1 (ih e hes.1 n hn), ihes hes.2⟩
      rw [Expr.names, Expr.marks, List.forall_mem_cons]
      exact ⟨.head _, fun n hn ↦
        .tail _ (.tail _ (List.mem_append_left _ (hargs args (fun _ he ↦ he) n hn)))⟩
  | paren inner ih => exact fun n hn ↦ .tail _ (List.mem_append_left _ (ih n hn))

theorem Stmt.ident_mem_marks_of_declaration? {s : Stmt} {d : Name × Binding}
    (hd : s.declaration? = some d) : .free (.ident d.1.text) ∈ s.marks := by
  cases s with
  | imports binding specifier offset =>
      cases hd
      exact .tail _ (.head _)
  | declares name =>
      cases hd
      exact .tail _ (.head _)
  | «variable» isExported kind name value =>
      have hname : d.1 = name := by
        cases kind <;> (cases hd; rfl)
      simp [Stmt.marks, hname]
  | assign target op value => cases hd
  | expr e => cases hd

theorem Stmt.ident_mem_marks_of_uses {s : Stmt} :
    ∀ u ∈ s.uses, .free (.ident u.name.text) ∈ s.marks := by
  cases s with
  | imports binding specifier offset => exact nofun
  | declares name => exact nofun
  | «variable» isExported kind name value =>
      cases value with
      | none => exact nofun
      | some value =>
          rw [Stmt.uses, List.forall_mem_map]
          intro n hn
          exact List.mem_append_right _
            (List.mem_append_right _ (.tail _ (.tail _ (value.ident_mem_marks n hn))))
  | assign target op value =>
      rw [Stmt.uses, List.forall_mem_cons, List.forall_mem_map]
      exact ⟨.head _, fun n hn ↦ .tail _ (.tail _ (value.ident_mem_marks n hn))⟩
  | expr e =>
      rw [Stmt.uses, List.forall_mem_map]
      exact e.ident_mem_marks

theorem mem_of_mem_duplicates {earlier : List String} {ns : List Name} {e : NameError}
    (he : e ∈ duplicates earlier ns) : e.name ∈ ns := by
  induction ns generalizing earlier with
  | nil => cases he
  | cons n ns ih =>
      rw [duplicates] at he
      split at he
      · rcases List.mem_cons.mp he with rfl | he
        · exact .head _
        · exact .tail _ (ih he)
      · exact .tail _ (ih he)

theorem Use.name_of_error? {declared : List (Name × Binding)} {globals : List String} {u : Use}
    {e : NameError} (he : u.error? declared globals = some e) : e.name = u.name := by
  cases u with
  | read n =>
      rw [Use.error?] at he
      split at he <;> cases he
      rfl
  | written n =>
      rw [Use.error?] at he
      split at he
      · cases he; rfl
      · cases he; rfl
      · cases he
      · split at he <;> cases he
        rfl

/-- A name that breaks a rule is a token of a statement. -/
theorem exists_mark_of_mem_nameErrors {globals : List String} {statements : List Stmt}
    {e : NameError} (he : e ∈ nameErrors globals statements) :
    ∃ s ∈ statements, .free (.ident e.name.text) ∈ s.marks := by
  rcases List.mem_append.mp he with he | he
  · obtain ⟨d, hd, hname⟩ := List.mem_map.mp (mem_of_mem_duplicates he)
    obtain ⟨s, hs, hdeclared⟩ := List.mem_filterMap.mp hd
    exact ⟨s, hs, hname ▸ Stmt.ident_mem_marks_of_declaration? hdeclared⟩
  · obtain ⟨u, hu, hfault⟩ := List.mem_filterMap.mp he
    obtain ⟨s, hs, hu⟩ := List.mem_flatMap.mp hu
    exact ⟨s, hs, Use.name_of_error? hfault ▸ Stmt.ident_mem_marks_of_uses u hu⟩

theorem IsWord.newline_notMem {cs : List Char} (h : IsWord cs) : '\n' ∉ cs := by
  obtain ⟨hblank, -, -, hcontinues⟩ := h
  rw [List.mem_cons, not_or]
  refine ⟨?_, fun hmem ↦ ?_⟩
  · rintro rfl
    cases hblank
  · cases hcontinues _ hmem

/-- A name that breaks a rule in a text is a word of it. -/
theorem isWord_of_mem_nameErrors {cs : List Char} {tree : SyntaxTree}
    (htree : SyntaxTree.ofText? cs = some tree) {globals : List String} {e : NameError}
    (he : e ∈ nameErrors globals tree.statements) : IsWord e.name.text.toList := by
  obtain ⟨s, hs, hmark⟩ := exists_mark_of_mem_nameErrors he
  exact ((SyntaxTree.readable_of_mem_statements htree hs).2 _ hmark).1

end PipedCompiler.Language
