import PipedCompiler.Compile.Program
import PipedCompiler.Proofs.Language.Names
import PipedCompiler.Proofs.Language.Recovery

/-!
# What is made of moved modules

Where the parts of a module are at other places, its imports and name errors are at other places
too, and its emitted text is the same.  So if the new places are at the same lines and columns of
another text, then everything that is said about the module is the same.
-/

namespace PipedCompiler.Language

open PipedCompiler.Text

variable (g : Nat → Nat)

/-! ## Emitted texts -/

/-- Arguments are emitted alike, if each of them is. -/
theorem Expr.emitArguments_map {args : List Expr} (h : ∀ e ∈ args, (e.move g).emit = e.emit) :
    Expr.emitArguments (args.map (Expr.move g)) = Expr.emitArguments args := by
  induction args with
  | nil => rfl
  | cons e args ih =>
      have he := h e List.mem_cons_self
      have hargs := ih fun d hd ↦ h d (List.mem_cons_of_mem e hd)
      cases args with
      | nil => exact he
      | cons d args =>
          rw [List.map_cons, List.map_cons, Expr.emitArguments, Expr.emitArguments, he,
            ← List.map_cons, hargs]

@[simp] theorem Expr.emit_move (e : Expr) : (e.move g).emit = e.emit := by
  induction e with
  | neg operand ih => rw [Expr.move, Expr.emit, Expr.emit, ih]
  | binary op lhs rhs hlhs hrhs => rw [Expr.move, Expr.emit, Expr.emit, hlhs, hrhs]
  | call callee args ih =>
      rw [Expr.move, Expr.moveAll_eq, Expr.emit, Expr.emit, Expr.emitArguments_map g ih]
      rfl
  | paren inner ih => rw [Expr.move, Expr.emit, Expr.emit, ih]
  | _ => rfl

theorem Stmt.emitLines_move (target : LanguageTarget) (s : Stmt) :
    (s.move g).emitLines target = s.emitLines target := by
  cases s with
  | «variable» isExported kind name value =>
      cases value <;> simp [Stmt.move, Stmt.emitLines, Name.move]
  | assign name op value => simp [Stmt.move, Stmt.emitLines, Name.move]
  | expr e => simp [Stmt.move, Stmt.emitLines]
  | _ => rfl

theorem emit_map_move (target : LanguageTarget) (newLine : String) (statements : List Stmt) :
    emit target newLine (statements.map (Stmt.move g)) = emit target newLine statements := by
  have hlines : Stmt.emitLines target ∘ Stmt.move g = Stmt.emitLines target :=
    funext (Stmt.emitLines_move g target)
  rw [emit, emit, emitChars, emitChars, emitLines, emitLines, List.flatMap_map]
  exact congrArg (fun f ↦ String.ofList ((statements.flatMap f).flatMap _)) hlines

/-! ## Imports -/

/-- The import at another place. -/
def Import.move (i : Import) : Import := ⟨i.specifier, g i.offset⟩

theorem Stmt.import?_move (s : Stmt) : (s.move g).import? = s.import?.map (Import.move g) := by
  cases s <;> rfl

theorem SyntaxTree.imports_move (t : SyntaxTree) :
    (t.move g).imports = t.imports.map (Import.move g) := by
  have himport : Stmt.import? ∘ Stmt.move g = fun s ↦ s.import?.map (Import.move g) :=
    funext (Stmt.import?_move g)
  rw [SyntaxTree.imports, SyntaxTree.imports, importsOf, importsOf, SyntaxTree.move,
    List.filterMap_map, List.map_filterMap, himport]

/-! ## Names -/

@[simp] theorem Expr.names_move (e : Expr) : (e.move g).names = e.names.map (Name.move g) := by
  induction e with
  | neg operand ih => rw [Expr.move, Expr.names, Expr.names, ih]
  | binary op lhs rhs hlhs hrhs =>
      rw [Expr.move, Expr.names, Expr.names, hlhs, hrhs, List.map_append]
  | call callee args ih =>
      rw [Expr.move, Expr.moveAll_eq, Expr.names, Expr.names, Expr.namesOfList_eq,
        Expr.namesOfList_eq, List.flatMap_map, List.map_cons, List.map_flatMap,
        List.flatMap_congr ih]
  | paren inner ih => rw [Expr.move, Expr.names, Expr.names, ih]
  | _ => rfl

/-- The declaration at another place. -/
def moveDeclaration (d : Name × Binding) : Name × Binding := (d.1.move g, d.2)

theorem Stmt.declaration?_move (s : Stmt) :
    (s.move g).declaration? = s.declaration?.map (moveDeclaration g) := by
  cases s with
  | «variable» isExported kind name value => cases kind <;> rfl
  | _ => rfl

theorem declarations_map_move (statements : List Stmt) :
    declarations (statements.map (Stmt.move g)) =
      (declarations statements).map (moveDeclaration g) := by
  have hdeclaration : Stmt.declaration? ∘ Stmt.move g =
      fun s ↦ s.declaration?.map (moveDeclaration g) :=
    funext (Stmt.declaration?_move g)
  rw [declarations, declarations, List.filterMap_map, List.map_filterMap, hdeclaration]

@[simp] theorem bindingOf?_map_move (declared : List (Name × Binding)) (text : String) :
    bindingOf? (declared.map (moveDeclaration g)) text = bindingOf? declared text := by
  rw [bindingOf?, bindingOf?, ← List.map_reverse, List.find?_map, Option.map_map]
  rfl

/-- The use at another place. -/
def Use.move : Use → Use
  | .read n => .read (n.move g)
  | .written n => .written (n.move g)

theorem Stmt.uses_move (s : Stmt) : (s.move g).uses = s.uses.map (Use.move g) := by
  cases s with
  | «variable» isExported kind name value =>
      cases value <;> simp [Stmt.move, Stmt.uses, Use.move, Function.comp_def]
  | assign target op value => simp [Stmt.move, Stmt.uses, Use.move, Function.comp_def]
  | expr e => simp [Stmt.move, Stmt.uses, Use.move, Function.comp_def]
  | _ => rfl

/-- The name error at another place. -/
def NameError.move (e : NameError) : NameError := ⟨e.name.move g, e.fault⟩

theorem duplicates_map_move (earlier : List String) (names : List Name) :
    duplicates earlier (names.map (Name.move g)) =
      (duplicates earlier names).map (NameError.move g) := by
  induction names generalizing earlier with
  | nil => rfl
  | cons n ns ih =>
      have htext : (n.move g).text = n.text := rfl
      rw [List.map_cons, duplicates, duplicates, htext]
      split
      · rw [ih, List.map_cons]
        rfl
      · exact ih _

theorem Use.error?_move (declared : List (Name × Binding)) (globals : List String) (u : Use) :
    (u.move g).error? (declared.map (moveDeclaration g)) globals =
      (u.error? declared globals).map (NameError.move g) := by
  have htext (n : Name) : (n.move g).text = n.text := rfl
  cases u with
  | read n =>
      rw [Use.move, Use.error?, Use.error?, bindingOf?_map_move, htext]
      split <;> rfl
  | written n =>
      rw [Use.move, Use.error?, Use.error?, bindingOf?_map_move, htext]
      split
      · rfl
      · rfl
      · rfl
      · split <;> rfl

theorem nameErrors_map_move (globals : List String) (statements : List Stmt) :
    nameErrors globals (statements.map (Stmt.move g)) =
      (nameErrors globals statements).map (NameError.move g) := by
  have hnames : ((declarations statements).map (moveDeclaration g)).map Prod.fst =
      ((declarations statements).map Prod.fst).map (Name.move g) := by
    rw [List.map_map, List.map_map]
    rfl
  have huses : Stmt.uses ∘ Stmt.move g = fun s ↦ s.uses.map (Use.move g) :=
    funext (Stmt.uses_move g)
  have herror : Use.error? ((declarations statements).map (moveDeclaration g)) globals ∘
      Use.move g = fun u ↦ (u.error? (declarations statements) globals).map (NameError.move g) :=
    funext (Use.error?_move g _ globals)
  rw [nameErrors, nameErrors, declarations_map_move, hnames, duplicates_map_move, List.map_append,
    List.map_filterMap, ← herror, ← List.filterMap_map, List.map_flatMap, ← huses,
    List.flatMap_map]
  rfl

/-! ## Errors -/

/-- Sorting does not mix up what is moved in order. -/
theorem SyntaxTree.sortErrors_map_move {g : Nat → Nat} (hg : ∀ a b, g a ≤ g b ↔ a ≤ b)
    (es : List SyntaxError) :
    sortErrors (es.map (SyntaxError.move g)) = (sortErrors es).map (SyntaxError.move g) := by
  rw [sortErrors, sortErrors, List.map_mergeSort]
  intro a _ b _
  exact decide_eq_decide.mpr (hg a.offset b.offset).symm

/-- The lexical error at another place. -/
def LexicalError.move (e : LexicalError) : LexicalError := { e with offset := g e.offset }

/-- A scan whose parts are at other places. -/
def Scan.move (s : Scan) : Scan :=
  ⟨s.lexemes.map (Lexeme.move g), s.errors.map (LexicalError.move g), g s.size, s.newlineAtEnd⟩

/-- What is read from a moved scan is what is read from it as it is, but moved. -/
theorem SyntaxTree.ofScan_move {g : Nat → Nat} (hg : ∀ a b, g a ≤ g b ↔ a ≤ b) (s : Scan) :
    ofScan (s.move g) = (ofScan s).move g := by
  have hlexical : (s.errors.map (LexicalError.move g)).map SyntaxError.ofLexical =
      (s.errors.map SyntaxError.ofLexical).map (SyntaxError.move g) := by
    rw [List.map_map, List.map_map]
    rfl
  have hread : ofLexemes (g s.size) (s.lexemes.map (Lexeme.move g)) =
      (ofLexemes s.size s.lexemes).move g :=
    ofLexemes_move rfl s.lexemes
  have hsorted := sortErrors_map_move hg
    (s.errors.map SyntaxError.ofLexical ++ (ofLexemes s.size s.lexemes).errors)
  rw [List.map_append, ← hlexical] at hsorted
  rw [ofScan, Scan.move, hread]
  exact congrArg (SyntaxTree.mk _) hsorted

/-! ## Diagnostics -/

/-- Whether what is at a place in one file is shown at the line and column of another place in
another file of the same path. -/
structure ShownAlike (f f' : SourceFile) : Prop where
  path : f'.path = f.path
  position : ∀ offset, position f'.chars (g offset) = position f.chars offset

section Diagnostics

variable {g} {f f' : SourceFile} (h : ShownAlike g f f')
include h

theorem ShownAlike.place (d : Diagnostic) (offset : Nat) :
    d.place f' (g offset) = d.place f offset := by
  rw [Diagnostic.place, Diagnostic.place, h.position, h.path]

theorem ShownAlike.checkNames (globals : List String) (statements : List Stmt) :
    checkNames f' globals (statements.map (Stmt.move g)) = checkNames f globals statements := by
  rw [Language.checkNames, Language.checkNames, nameErrors_map_move, List.map_map]
  exact List.map_congr_left fun e _ ↦ h.place _ e.name.offset

theorem ShownAlike.syntaxDiagnostics (tree : SyntaxTree) (unresolved unresolved' : List Import) :
    Compile.LoadedFile.syntaxDiagnostics ⟨f', tree.move g, unresolved'⟩ =
      Compile.LoadedFile.syntaxDiagnostics ⟨f, tree, unresolved⟩ := by
  rw [Compile.LoadedFile.syntaxDiagnostics, Compile.LoadedFile.syntaxDiagnostics, SyntaxTree.move,
    List.map_map]
  refine List.map_congr_left fun e _ ↦ ?_
  rw [Function.comp_apply, SyntaxError.move, SyntaxFault.code_move, SyntaxFault.message_move]
  exact h.place _ e.offset

theorem ShownAlike.importDiagnostics (tree tree' : SyntaxTree) (unresolved : List Import) :
    Compile.LoadedFile.importDiagnostics ⟨f', tree', unresolved.map (Import.move g)⟩ =
      Compile.LoadedFile.importDiagnostics ⟨f, tree, unresolved⟩ := by
  rw [Compile.LoadedFile.importDiagnostics, Compile.LoadedFile.importDiagnostics, List.map_map]
  exact List.map_congr_left fun i _ ↦ h.place _ i.offset

end Diagnostics

end PipedCompiler.Language
