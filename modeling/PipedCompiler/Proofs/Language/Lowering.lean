import PipedCompiler.Language.Emitted

/-!
# Declarations without block scoping

A target that cannot scope declarations to a block gets `var` where there was `let` or `const`.
Nothing else in the emitted text depends on the target.
-/

namespace PipedCompiler.Language

/-- The keyword of a statement that declares something in a block. -/
def Stmt.blockKeyword? : Stmt → Option String
  | .variable _ .letWord _ _ => some "let"
  | .variable _ .constWord _ _ => some "const"
  | _ => none

/-- The lines with `var` in place of the keyword at the beginning of the first one. -/
def replaceKeyword (keyword : String) : List (List Char) → List (List Char)
  | [] => []
  | line :: lines => ("var".toList ++ line.drop keyword.toList.length) :: lines

/-- What a statement is emitted as where declarations can be scoped to a block, but with `var` in
place of the keyword of such a declaration. -/
def Stmt.loweredLines (s : Stmt) : List (List Char) :=
  match s.blockKeyword? with
  | some keyword => replaceKeyword keyword (s.emitLines .es2015)
  | none => s.emitLines .es2015

/-- The text of some lines, each ended by `newLine`. -/
def linesText (newLine : String) (lines : List (List Char)) : String :=
  String.ofList (lines.flatMap (· ++ newLine.toList))

namespace Stmt

/-- The first line of a variable begins with its keyword, and only that depends on the target. -/
theorem exists_emitLines_variable (isExported : Bool) (kind : VariableKind) (name : Name)
    (value : Option Expr) :
    ∃ line lines, ∀ target, emitLines target (.variable isExported kind name value) =
      ((kind.keyword target).toList ++ ' ' :: line) :: lines := by
  -- behind the first line nothing depends on the target
  let lines := (emitLines .es2015 (.variable isExported kind name value)).tail
  cases value with
  | none =>
      refine ⟨name.text.toList ++ [';'], lines, fun target ↦ ?_⟩
      rw [emitLines, List.append_assoc]
      rfl
  | some e =>
      refine ⟨name.text.toList ++ (" = ".toList ++ (e.emit ++ [';'])), lines, fun target ↦ ?_⟩
      rw [emitLines, List.append_assoc, List.append_assoc, List.append_assoc]
      rfl

/-- A declaration with a keyword of its own gets `var` in its place where blocks have no scopes. -/
theorem exists_emitLines_of_blockKeyword {s : Stmt} {keyword : String}
    (h : s.blockKeyword? = some keyword) :
    ∃ line lines, s.emitLines .es2015 = (keyword.toList ++ ' ' :: line) :: lines ∧
      ∀ target, target.hasBlockScoping = false →
        s.emitLines target = ("var".toList ++ ' ' :: line) :: lines := by
  cases s with
  | «variable» isExported kind name value =>
      obtain ⟨line, lines, hlines⟩ := exists_emitLines_variable isExported kind name value
      refine ⟨line, lines, ?_, fun target htarget ↦ ?_⟩
      · cases kind with
        | letWord => cases h; exact hlines .es2015
        | constWord => cases h; exact hlines .es2015
        | bare => cases h
      · rw [hlines]
        cases kind with
        | letWord => rw [VariableKind.keyword, htarget]; rfl
        | constWord => rw [VariableKind.keyword, htarget]; rfl
        | bare => rfl
  | _ => cases h

/-- All other statements are emitted in the same way for all targets. -/
theorem emitLines_of_blockKeyword_eq_none {s : Stmt} (h : s.blockKeyword? = none)
    (target target' : LanguageTarget) : s.emitLines target = s.emitLines target' := by
  cases s with
  | «variable» isExported kind name value =>
      cases kind with
      | letWord => cases h
      | constWord => cases h
      | bare => rfl
  | _ => rfl

theorem loweredLines_of_blockKeyword {s : Stmt} {keyword : String} {line : List Char}
    {lines : List (List Char)} (h : s.blockKeyword? = some keyword)
    (hlines : s.emitLines .es2015 = (keyword.toList ++ line) :: lines) :
    s.loweredLines = ("var".toList ++ line) :: lines := by
  rw [loweredLines, h, hlines]
  exact congrArg (fun cs ↦ ("var".toList ++ cs) :: lines) List.drop_left

theorem emitLines_eq_loweredLines {target : LanguageTarget} (h : target.hasBlockScoping = false)
    (s : Stmt) : s.emitLines target = s.loweredLines := by
  cases hkeyword : s.blockKeyword? with
  | some keyword =>
      obtain ⟨line, lines, hes2015, hlines⟩ := exists_emitLines_of_blockKeyword hkeyword
      rw [hlines target h, loweredLines_of_blockKeyword hkeyword hes2015]
  | none =>
      rw [loweredLines, hkeyword]
      exact emitLines_of_blockKeyword_eq_none hkeyword target .es2015

end Stmt

/-! ## Modules -/

theorem emit_eq_linesText (target : LanguageTarget) (newLine : String) (statements : List Stmt) :
    emit target newLine statements =
      linesText newLine (statements.flatMap (Stmt.emitLines target)) := rfl

/-- Where blocks have no scopes, a module is emitted as where they have, with `var` in place of the
keywords of its declarations. -/
theorem emit_eq_loweredLines {target : LanguageTarget} (h : target.hasBlockScoping = false)
    (newLine : String) (statements : List Stmt) :
    emit target newLine statements =
      linesText newLine (statements.flatMap Stmt.loweredLines) := by
  rw [emit_eq_linesText, funext (Stmt.emitLines_eq_loweredLines h)]

/-- The texts of some modules, one behind the other, are the text of all their statements. -/
theorem join_emit {α : Type} (target : LanguageTarget) (newLine : String) (f : α → List Stmt)
    (modules : List α) :
    String.join (modules.map fun m ↦ emit target newLine (f m)) =
      emit target newLine (modules.flatMap f) := by
  induction modules with
  | nil => rfl
  | cons m modules ih =>
      rw [List.map_cons, String.join_cons, ih, List.flatMap_cons, emit, emit, emit,
        ← String.ofList_append, emitChars, emitChars, emitChars, emitLines, emitLines, emitLines,
        List.flatMap_append, List.flatMap_append]

end PipedCompiler.Language
