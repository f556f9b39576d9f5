import PipedCompiler.Proofs.Language.Writing
import PipedCompiler.Proofs.Text.Returns

/-!
# Lines of emitted modules

Words and numbers are made of characters that stay on a line, and whatever else a string may contain
is escaped.  So each line of an emitted module is one that was meant to be: it ends with its
semicolon, and no text of the source opens another one.
-/

namespace PipedCompiler.Language

open PipedCompiler.Text

/-! ## Texts on a line -/

/-- The characters that are written by an escape: those that end lines or move along them, and the
null character. -/
def controls : List Char := ['\n', '\r', '\t', '\x00']

/-- Whether a text stays on its line and has no other control character. -/
def IsInline (cs : List Char) : Prop :=
  ∀ c ∈ cs, c ∉ controls

instance (cs : List Char) : Decidable (IsInline cs) :=
  inferInstanceAs (Decidable (∀ c ∈ cs, c ∉ controls))

section Inline

variable {c : Char} {cs ds : List Char}

theorem isInline_append : IsInline (cs ++ ds) ↔ IsInline cs ∧ IsInline ds :=
  List.forall_mem_append

theorem isInline_cons : IsInline (c :: cs) ↔ c ∉ controls ∧ IsInline cs :=
  List.forall_mem_cons

theorem IsInline.append (hcs : IsInline cs) (hds : IsInline ds) : IsInline (cs ++ ds) :=
  isInline_append.mpr ⟨hcs, hds⟩

theorem IsInline.cons (hc : c ∉ controls) (hcs : IsInline cs) : IsInline (c :: cs) :=
  isInline_cons.mpr ⟨hc, hcs⟩

theorem IsInline.lineFeed_notMem (h : IsInline cs) : '\n' ∉ cs :=
  fun hmem ↦ h _ hmem (by decide)

theorem isInline_of_holds {p : Char → Bool} (hcontrols : ∀ d ∈ controls, p d = false)
    (h : ∀ c ∈ cs, p c = true) : IsInline cs :=
  fun c hc hmem ↦ nomatch (h c hc).symm.trans (hcontrols c hmem)

end Inline

/-! ## Tokens -/

theorem isInline_escapeChar (c : Char) : IsInline (escapeChar c) := by
  unfold escapeChar
  split
  case h_7 hquote hbackslash hfeed hreturn htab hnull =>
    refine .cons ?_ nofun
    simp only [controls, List.mem_cons, not_or]
    exact ⟨hfeed, hreturn, htab, hnull, nofun⟩
  all_goals decide

theorem isInline_literal (value : String) : IsInline (literal value) := by
  refine .cons (by decide) (.append ?_ (by decide))
  intro c hc
  obtain ⟨d, -, hd⟩ := List.mem_flatMap.mp hc
  exact isInline_escapeChar d c hd

theorem IsWord.isInline {cs : List Char} (h : IsWord cs) : IsInline cs := by
  have hstarts : ∀ d ∈ controls, startsWord d = false := by decide +kernel
  have hcontinues : ∀ d ∈ controls, continuesWord d = false := by decide +kernel
  cases h with
  | intro _ _ hc hcs =>
      exact .cons (fun hmem ↦ nomatch hc.symm.trans (hstarts _ hmem))
        (isInline_of_holds hcontinues hcs)

theorem IsNumeral.isInline {cs : List Char} (h : IsNumeral cs) : IsInline cs := by
  have hdigits : ∀ d ∈ controls, d.isDigit = false := by decide
  have hhead {c : Char} (hc : c.isDigit = true) : c ∉ controls :=
    fun hmem ↦ nomatch hc.symm.trans (hdigits _ hmem)
  cases h with
  | whole _ hc hcs => exact .cons (hhead hc) (isInline_of_holds hdigits hcs)
  | fraction _ hc hcs hds =>
      exact .cons (hhead hc) ((isInline_of_holds hdigits hcs).append
        (.cons (by decide) (isInline_of_holds hdigits hds)))

theorem isInline_operator (op : BinaryOp) : IsInline op.text.toList := by
  cases op <;> decide

theorem isInline_assign (op : AssignOp) : IsInline op.text.toList := by
  cases op with
  | plain => decide
  | compound op =>
      rw [AssignOp.text, String.toList_append]
      exact (isInline_operator op).append (by decide)

/-! ## Expressions -/

theorem Expr.isInline_emitArguments {args : List Expr} (h : ∀ arg ∈ args, IsInline arg.emit) :
    IsInline (Expr.emitArguments args) := by
  induction args with
  | nil => exact nofun
  | cons e args ih =>
      rw [List.forall_mem_cons] at h
      cases args with
      | nil => exact h.1
      | cons d args =>
          rw [Expr.emitArguments]
          exact h.1.append (.cons (by decide) (.cons (by decide) (ih h.2)))

/-- An expression is emitted on one line. -/
theorem Expr.isInline_emit {e : Expr} (h : ∀ m ∈ e.marks, m.token.Readable) : IsInline e.emit := by
  induction e with
  | number text => exact IsNumeral.isInline (h _ List.mem_cons_self)
  | str value => exact isInline_literal value
  | name n => exact IsWord.isInline (h _ List.mem_cons_self).1
  | neg operand ih =>
      rw [Expr.marks, List.forall_mem_cons] at h
      exact .cons (by decide) (ih h.2)
  | binary op lhs rhs ihlhs ihrhs =>
      rw [Expr.marks, List.forall_mem_append, List.forall_mem_cons] at h
      rw [Expr.emit]
      exact ((ihlhs h.1).append (.cons (by decide) (isInline_operator op))).append
        (.cons (by decide) (ihrhs h.2.2))
  | call callee args ih =>
      rw [Expr.marks, List.forall_mem_cons, List.forall_mem_cons, List.forall_mem_append] at h
      have hargs : IsInline (Expr.emitArguments args) :=
        Expr.isInline_emitArguments fun arg harg ↦
          ih arg harg fun m hm ↦ h.2.2.1 m (Expr.mem_marksOfArguments harg hm)
      rw [Expr.emit]
      exact ((IsWord.isInline h.1.1).append (.cons (by decide) hargs)).append (by decide)
  | paren inner ih =>
      rw [Expr.marks, List.forall_mem_cons, List.forall_mem_append] at h
      rw [Expr.emit]
      exact (IsInline.cons (by decide) (ih h.2.1)).append (by decide)

/-! ## Statements -/

/-- Whether a text is a line that ends with a semicolon. -/
structure IsClosedLine (line : List Char) : Prop where
  isInline : IsInline line
  semicolon : line.getLast? = some ';'

theorem IsClosedLine.append_semicolon {cs : List Char} (h : IsInline cs) :
    IsClosedLine (cs ++ [';']) :=
  ⟨h.append (by decide), List.getLast?_concat⟩

theorem isInline_keyword (target : LanguageTarget) (kind : VariableKind) :
    IsInline (kind.keyword target).toList := by
  have hwords : ∀ word ∈ ["let", "const", "var"], IsInline word.toList := by decide
  cases kind <;> cases htarget : target.hasBlockScoping <;>
    exact hwords _ (by simp [VariableKind.keyword, htarget])

/-- A statement is emitted as lines that end with semicolons. -/
theorem Stmt.isClosedLine_of_mem_emitLines {target : LanguageTarget} {s : Stmt}
    (h : ∀ m ∈ s.marks, m.token.Readable) : ∀ line ∈ s.emitLines target, IsClosedLine line := by
  cases s with
  | imports binding specifier offset =>
      have hbinding : (Token.ident binding.text).Readable :=
        h (.free (.ident binding.text)) (by simp [Stmt.marks])
      have hline : IsInline ("var ".toList ++ binding.text.toList ++ " = require(".toList ++
          literal specifier ++ [')']) :=
        (((IsInline.append (by decide) hbinding.1.isInline).append (by decide)).append
          (isInline_literal specifier)).append (by decide)
      refine List.forall_mem_singleton.mpr ?_
      rw [show ");".toList = [')'] ++ [';'] from rfl, ← List.append_assoc]
      exact .append_semicolon hline
  | declares name => exact List.forall_mem_nil _
  | «variable» isExported kind name value =>
      rw [Stmt.marks, List.forall_mem_append, List.forall_mem_append, List.forall_mem_cons] at h
      obtain ⟨-, -, hname, hvalue⟩ := h
      have hname : IsInline name.text.toList := hname.1.isInline
      have hdeclared := (isInline_keyword target kind).append (.cons (c := ' ') (by decide) hname)
      refine List.forall_mem_cons.mpr ⟨?_, ?_⟩
      · cases value with
        | none => exact .append_semicolon hdeclared
        | some e =>
            rw [initialMarks, List.forall_mem_cons] at hvalue
            exact .append_semicolon
              ((hdeclared.append (by decide)).append (Expr.isInline_emit hvalue.2))
      · cases isExported with
        | false => exact List.forall_mem_nil _
        | true =>
            exact List.forall_mem_singleton.mpr (.append_semicolon
              (((IsInline.append (by decide) hname).append (by decide)).append hname))
  | assign target op value =>
      rw [Stmt.marks, List.forall_mem_cons, List.forall_mem_cons] at h
      have hassign : IsInline (target.text.toList ++ ' ' :: op.text.toList) :=
        h.1.1.isInline.append (.cons (by decide) (isInline_assign op))
      exact List.forall_mem_singleton.mpr (.append_semicolon
        (hassign.append (.cons (by decide) (Expr.isInline_emit h.2.2))))
  | expr e => exact List.forall_mem_singleton.mpr (.append_semicolon (Expr.isInline_emit h))

/-- How many lines a statement is emitted as. -/
theorem Stmt.length_emitLines (target : LanguageTarget) (s : Stmt) :
    (s.emitLines target).length = (!s.isAmbient).toNat + s.isExported.toNat := by
  cases s with
  | «variable» isExported kind name value => cases isExported <;> rfl
  | _ => rfl

/-! ## Modules -/

section Lines

variable {lines : List (List Char)}

theorem count_lineFeed_flatMap (h : ∀ line ∈ lines, '\n' ∉ line) :
    (lines.flatMap (· ++ ['\n'])).count '\n' = lines.length := by
  induction lines with
  | nil => rfl
  | cons line lines ih =>
      rw [List.forall_mem_cons] at h
      rw [List.flatMap_cons, List.count_append, List.count_append, ih h.2,
        List.count_eq_zero_of_not_mem h.1, List.count_singleton_self, List.length_cons]
      omega

/-- A line feed ends a line. -/
theorem exists_line_of_flatMap_eq_append (h : ∀ line ∈ lines, '\n' ∉ line)
    {before after : List Char} (happend : lines.flatMap (· ++ ['\n']) = before ++ '\n' :: after) :
    ∃ done line more, lines = done ++ line :: more ∧
      before = done.flatMap (· ++ ['\n']) ++ line ∧ after = more.flatMap (· ++ ['\n']) := by
  induction lines generalizing before with
  | nil => simp at happend
  | cons line lines ih =>
      rw [List.forall_mem_cons] at h
      rw [List.flatMap_cons, List.append_assoc, List.singleton_append] at happend
      rcases List.append_eq_append_iff.mp happend with
        ⟨more, rfl, hmore⟩ | ⟨more, rfl, hmore⟩
      · cases more with
        | nil =>
            obtain ⟨-, rfl⟩ := List.cons.inj hmore
            exact ⟨[], line, lines, rfl, by simp, rfl⟩
        | cons c more =>
            obtain ⟨rfl, hlines⟩ := List.cons.inj hmore
            obtain ⟨done, line', later, rfl, rfl, hafter⟩ := ih h.2 hlines
            exact ⟨line :: done, line', later, rfl, by simp, hafter⟩
      · cases more with
        | nil =>
            obtain ⟨-, rfl⟩ := List.cons.inj hmore
            exact ⟨[], before, lines, by simp, rfl, rfl⟩
        | cons c more =>
            -- the line feed would be one of the line
            obtain ⟨rfl, -⟩ := List.cons.inj hmore
            exact absurd (List.mem_append_right before List.mem_cons_self) h.1

theorem withReturns_flatMap (h : ∀ line ∈ lines, '\n' ∉ line) :
    withReturns (lines.flatMap (· ++ ['\n'])) = lines.flatMap (· ++ ['\r', '\n']) := by
  induction lines with
  | nil => rfl
  | cons line lines ih =>
      rw [List.forall_mem_cons] at h
      rw [List.flatMap_cons, List.flatMap_cons, withReturns_append, withReturns_append, ih h.2,
        withReturns_of_notMem h.1]
      rfl

end Lines

theorem length_emitLines (target : LanguageTarget) (statements : List Stmt) :
    (emitLines target statements).length =
      statements.countP (!·.isAmbient) + statements.countP Stmt.isExported := by
  induction statements with
  | nil => rfl
  | cons s statements ih =>
      rw [emitLines, List.flatMap_cons, List.length_append, ← emitLines, ih, s.length_emitLines,
        List.countP_cons, List.countP_cons]
      cases s.isAmbient <;> cases s.isExported <;> simp <;> omega

namespace SyntaxTree

/-- Whatever a text contains, it is emitted line by line: there is a line feed for each statement
that does not only declare and one more for each exported variable, and each of them ends a line
that ends with a semicolon.  Other characters that end lines, tabs and null characters do not occur.
Other line ends make no other difference. -/
theorem lines_emitted {cs : List Char} {tree : SyntaxTree} (htree : ofText? cs = some tree)
    (target : LanguageTarget) :
    (emit target "\n" tree.statements).toList.count '\n' =
        tree.statements.countP (!·.isAmbient) + tree.statements.countP Stmt.isExported ∧
      (∀ before after, (emit target "\n" tree.statements).toList = before ++ '\n' :: after →
        ∃ done line more, emitLines target tree.statements = done ++ line :: more ∧
          IsClosedLine line ∧ before = done.flatMap (· ++ ['\n']) ++ line ∧
          after = more.flatMap (· ++ ['\n'])) ∧
      (∀ c ∈ ['\r', '\t', '\x00'], c ∉ (emit target "\n" tree.statements).toList) ∧
      (emit target "\r\n" tree.statements).toList =
        withReturns (emit target "\n" tree.statements).toList := by
  have hclosed : ∀ line ∈ emitLines target tree.statements, IsClosedLine line := by
    intro line hline
    obtain ⟨s, hs, hline⟩ := List.mem_flatMap.mp hline
    exact s.isClosedLine_of_mem_emitLines (readable_of_mem_statements htree hs).2 line hline
  have hfeed : ∀ line ∈ emitLines target tree.statements, '\n' ∉ line :=
    fun line hline ↦ (hclosed line hline).isInline.lineFeed_notMem
  have htext : (emit target "\n" tree.statements).toList =
      (emitLines target tree.statements).flatMap (· ++ ['\n']) :=
    String.toList_ofList
  have htext' : (emit target "\r\n" tree.statements).toList =
      (emitLines target tree.statements).flatMap (· ++ ['\r', '\n']) :=
    String.toList_ofList
  rw [htext, htext']
  refine ⟨?_, fun before after happend ↦ ?_, fun c hc hmem ↦ ?_, (withReturns_flatMap hfeed).symm⟩
  · rw [count_lineFeed_flatMap hfeed, length_emitLines]
  · obtain ⟨done, line, more, hlines, hbefore, hafter⟩ :=
      exists_line_of_flatMap_eq_append hfeed happend
    have hline : line ∈ emitLines target tree.statements := by
      rw [hlines]
      exact List.mem_append_right done List.mem_cons_self
    exact ⟨done, line, more, hlines, hclosed line hline, hbefore, hafter⟩
  · obtain ⟨line, hline, hc'⟩ := List.mem_flatMap.mp hmem
    rcases List.mem_append.mp hc' with hc' | hc'
    · exact (hclosed line hline).isInline c hc' (List.mem_cons_of_mem _ hc)
    · rw [List.mem_singleton.mp hc'] at hc
      revert hc
      decide

/-- A module with a line break and a tab in a string, a declaration and an export. -/
def brokenString : String :=
  "declare f\nexport x = 'a\\n\tb'; f(x)"

theorem lines_emitted_brokenString :
    ∃ tree, ofText? brokenString.toList = some tree ∧
      (emit .es5 "\n" tree.statements).toList.count '\n' = 2 + 1 ∧
      (∀ c ∈ ['\r', '\t', '\x00'], c ∉ (emit .es5 "\n" tree.statements).toList) ∧
      (emit .es5 "\r\n" tree.statements).toList =
        withReturns (emit .es5 "\n" tree.statements).toList := by
  have hproperties : (ofText? brokenString.toList).map (fun tree ↦
      (tree.statements.countP (!·.isAmbient), tree.statements.countP Stmt.isExported)) =
      some (2, 1) := by decide +kernel
  obtain ⟨tree, htree, hcounts⟩ := Option.map_eq_some_iff.mp hproperties
  obtain ⟨hambient, hexported⟩ := Prod.mk.inj hcounts
  obtain ⟨hcount, -, hcontrols, hreturns⟩ := lines_emitted htree .es5
  rw [hambient, hexported] at hcount
  exact ⟨tree, htree, hcount, hcontrols, hreturns⟩

end SyntaxTree

end PipedCompiler.Language
