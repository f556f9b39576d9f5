import PipedCompiler.Proofs.Language.Listing
import PipedCompiler.Proofs.Language.NamePlaces

/-!
# Occurrences of names

Where names stand in a module, and which of these occurrences break a rule.  The rules are those of
the language: a name is declared once, what is used is declared somewhere in the module or known
everywhere, and a name is not assigned to if its last declaration is a constant or an import.  What
is reported are just the occurrences that break a rule, in order.
-/

namespace PipedCompiler.Language

/-! ## Where names stand -/

/-- Whether a name is read or called at a place in an expression. -/
inductive Expr.NameAt : Expr → Place → Name → Prop
  | name {n : Name} : NameAt (.name n) [] n
  | neg {operand : Expr} {place : Place} {n : Name} (h : operand.NameAt place n) :
      NameAt (.neg operand) (0 :: place) n
  | left {op : BinaryOp} {lhs rhs : Expr} {place : Place} {n : Name} (h : lhs.NameAt place n) :
      NameAt (.binary op lhs rhs) (0 :: place) n
  | right {op : BinaryOp} {lhs rhs : Expr} {place : Place} {n : Name} (h : rhs.NameAt place n) :
      NameAt (.binary op lhs rhs) (1 :: place) n
  | callee {callee : Name} {args : List Expr} : NameAt (.call callee args) [0] callee
  | argument {callee : Name} {args : List Expr} {i : Nat} {arg : Expr} {place : Place} {n : Name}
      (harg : args[i]? = some arg) (h : arg.NameAt place n) :
      NameAt (.call callee args) ((i + 1) :: place) n
  | paren {inner : Expr} {place : Place} {n : Name} (h : inner.NameAt place n) :
      NameAt (.paren inner) (0 :: place) n

/-- Whether a name is used at a place in a statement. -/
inductive Stmt.UseAt : Stmt → Place → Use → Prop
  | initial {isExported : Bool} {kind : VariableKind} {name n : Name} {value : Expr}
      {place : Place} (h : value.NameAt place n) :
      UseAt (.variable isExported kind name (some value)) (1 :: place) (.read n)
  | target {target : Name} {op : AssignOp} {value : Expr} :
      UseAt (.assign target op value) [0] (.written target)
  | assigned {target n : Name} {op : AssignOp} {value : Expr} {place : Place}
      (h : value.NameAt place n) : UseAt (.assign target op value) (1 :: place) (.read n)
  | expr {e : Expr} {n : Name} {place : Place} (h : e.NameAt place n) :
      UseAt (.expr e) (0 :: place) (.read n)

/-- Whether a statement declares a name, at this occurrence of it. -/
inductive Stmt.Introduces : Stmt → Name → Prop
  | imports {binding : Name} {specifier : String} {offset : Nat} :
      Introduces (.imports binding specifier offset) binding
  | declares {name : Name} : Introduces (.declares name) name
  | variable {isExported : Bool} {kind : VariableKind} {name : Name} {value : Option Expr} :
      Introduces (.variable isExported kind name value) name

/-- Whether a name is declared or used at a place in a statement. -/
inductive Stmt.NameAt (s : Stmt) : Place → Name → Prop
  | introduced {n : Name} (h : s.Introduces n) : NameAt s [0] n
  | used {place : Place} {u : Use} (h : s.UseAt place u) : NameAt s place u.name

/-- Whether a name is declared or used at a place in a module. -/
def NameAt (statements : List Stmt) : Place → Name → Prop :=
  InParts 0 Stmt.NameAt statements

/-- The names of an expression are those that stand in it, in order. -/
theorem Expr.listed_names (e : Expr) : Listed e.NameAt e.names := by
  induction e with
  | number text => exact .of_none nofun
  | str value => exact .of_none nofun
  | name n =>
      refine (Listed.singleton [] n).congr fun place m ↦ ⟨?_, ?_⟩
      · rintro ⟨rfl, rfl⟩
        exact .name
      · rintro ⟨⟩
        exact ⟨rfl, rfl⟩
  | neg operand ih =>
      refine (ih.under 0).congr fun place n ↦ ?_
      exact ⟨fun ⟨_, hplace, h⟩ ↦ hplace ▸ .neg h, fun | .neg h => ⟨_, rfl, h⟩⟩
  | binary op lhs rhs hlhs hrhs =>
      have hlt (place place' : Place) (n n' : Name) (h : Under 0 lhs.NameAt place n)
          (h' : Under 1 rhs.NameAt place' n') : place < place' :=
        under_lt_under Nat.zero_lt_one h h'
      refine ((hlhs.under 0).append (hrhs.under 1) hlt).congr fun place n ↦ ⟨?_, ?_⟩
      · rintro (⟨rest, rfl, h⟩ | ⟨rest, rfl, h⟩)
        · exact .left h
        · exact .right h
      · exact fun | .left h => .inl ⟨_, rfl, h⟩ | .right h => .inr ⟨_, rfl, h⟩
  | call callee args ih =>
      -- the arguments are numbered from one on, since the callee is before them
      rw [Expr.names, Expr.namesOfList_eq]
      refine ((Listed.singleton [0] callee).append (Listed.flatMap ih 1) ?_).congr
        fun place n ↦ ⟨?_, ?_⟩
      · rintro place place' n n' ⟨rfl, -⟩ ⟨i, arg, -, rest, rfl, -⟩
        exact List.cons_lt_cons_iff.mpr (.inl (by omega))
      · rintro (⟨rfl, rfl⟩ | ⟨i, arg, harg, rest, rfl, h⟩)
        · exact .callee
        · rw [Nat.add_comm]
          exact .argument harg h
      · intro h
        cases h with
        | callee => exact .inl ⟨rfl, rfl⟩
        | argument harg h => exact .inr ⟨_, _, harg, _, by rw [Nat.add_comm], h⟩
  | paren inner ih =>
      refine (ih.under 0).congr fun place n ↦ ?_
      exact ⟨fun ⟨_, hplace, h⟩ ↦ hplace ▸ .paren h, fun | .paren h => ⟨_, rfl, h⟩⟩

/-- The names that a value reads, as uses that stand below a place. -/
theorem Listed.reads {At : Place → Name → Prop} {names : List Name} (h : Listed At names)
    (k : Nat) :
    Listed (fun place u ↦ ∃ n, Under k At place n ∧ u = .read n) (names.map Use.read) := by
  rw [← List.filterMap_eq_map]
  refine ((h.under k).filterMap _).congr fun place u ↦ ?_
  simp [eq_comm]

/-- The uses in a statement are those that stand in it, in order. -/
theorem Stmt.listed_uses (s : Stmt) : Listed s.UseAt s.uses := by
  cases s with
  | imports binding specifier offset => exact .of_none nofun
  | declares name => exact .of_none nofun
  | «variable» isExported kind name value =>
      cases value with
      | none => exact .of_none nofun
      | some value =>
          refine (value.listed_names.reads 1).congr fun place u ↦ ⟨?_, ?_⟩
          · rintro ⟨n, ⟨rest, rfl, h⟩, rfl⟩
            exact .initial h
          · exact fun | .initial h => ⟨_, ⟨_, rfl, h⟩, rfl⟩
  | assign target op value =>
      refine ((Listed.singleton [0] (.written target)).append (value.listed_names.reads 1)
        ?_).congr fun place u ↦ ⟨?_, ?_⟩
      · rintro place place' u u' ⟨rfl, -⟩ ⟨n, ⟨rest, rfl, -⟩, -⟩
        exact List.cons_lt_cons_iff.mpr (.inl Nat.zero_lt_one)
      · rintro (⟨rfl, rfl⟩ | ⟨n, ⟨rest, rfl, h⟩, rfl⟩)
        · exact .target
        · exact .assigned h
      · exact fun | .target => .inl ⟨rfl, rfl⟩ | .assigned h => .inr ⟨_, ⟨_, rfl, h⟩, rfl⟩
  | expr e =>
      refine (e.listed_names.reads 0).congr fun place u ↦ ⟨?_, ?_⟩
      · rintro ⟨n, ⟨rest, rfl, h⟩, rfl⟩
        exact .expr h
      · exact fun | .expr h => ⟨_, ⟨_, rfl, h⟩, rfl⟩

/-! ## Occurrences that break a rule -/

/-- Whether a statement is the last of a module that declares a name. -/
def LastDeclaration (statements : List Stmt) (text : String) (s : Stmt) : Prop :=
  s.Declares text ∧ ∃ before after, statements = before ++ s :: after ∧
    ∀ s' ∈ after, ¬ s'.Declares text

/-- An error about an occurrence of a name. -/
def errorAt (f : SourceFile) (n : Name) (code message : String) : Diagnostic :=
  (Diagnostic.error code message).place f n.offset

/-- Whether the declaration at a place is of a name that an earlier statement declares, and what is
said about it. -/
inductive Redeclared (f : SourceFile) (statements : List Stmt) : Place → Diagnostic → Prop
  | intro {i j : Nat} {s s' : Stmt} {n : Name} (hs : statements[i]? = some s)
      (hname : s.Introduces n) (hearlier : j < i) (hs' : statements[j]? = some s')
      (hdeclares : s'.Declares n.text) :
      Redeclared f statements [i, 0]
        (errorAt f n "TS2300" ("Duplicate identifier '" ++ n.text ++ "'."))

/-- Whether a use of a name breaks a rule, and what is said about it. -/
inductive Use.Offends (f : SourceFile) (globals : List String) (statements : List Stmt) :
    Use → Diagnostic → Prop
  | unknown {u : Use} (hdeclared : ∀ s ∈ statements, ¬ s.Declares u.name.text)
      (hglobal : u.name.text ∉ globals) :
      Offends f globals statements u
        (errorAt f u.name "TS2304" ("Cannot find name '" ++ u.name.text ++ "'."))
  | constant {n name : Name} {isExported : Bool} {value : Option Expr}
      (h : LastDeclaration statements n.text (.variable isExported .constWord name value)) :
      Offends f globals statements (.written n)
        (errorAt f n "TS2588" ("Cannot assign to '" ++ n.text ++ "' because it is a constant."))
  | imported {n binding : Name} {specifier : String} {offset : Nat}
      (h : LastDeclaration statements n.text (.imports binding specifier offset)) :
      Offends f globals statements (.written n)
        (errorAt f n "TS2632" ("Cannot assign to '" ++ n.text ++ "' because it is an import."))

/-- Whether a name is used against the rules at a place, and what is said about it. -/
def Misused (f : SourceFile) (globals : List String) (statements : List Stmt) (place : Place)
    (d : Diagnostic) : Prop :=
  ∃ i s rest u, statements[i]? = some s ∧ place = i :: rest ∧ s.UseAt rest u ∧
    u.Offends f globals statements d

/-! ### Declarations that count -/

section Last

variable {statements : List Stmt} {text : String}

theorem Stmt.introduces_iff {s : Stmt} {n : Name} :
    s.Introduces n ↔ ∃ binding, s.declaration? = some (n, binding) := by
  constructor
  · intro h
    cases h with
    | imports => exact ⟨.imported, rfl⟩
    | declares => exact ⟨.ambient, rfl⟩
    | @«variable» isExported kind name value =>
        cases kind with
        | constWord => exact ⟨.constant, rfl⟩
        | letWord => exact ⟨.changeable, rfl⟩
        | bare => exact ⟨.changeable, rfl⟩
  · rintro ⟨binding, h⟩
    cases s with
    | imports name specifier offset =>
        cases h
        exact .imports
    | declares name =>
        cases h
        exact .declares
    | «variable» isExported kind name value =>
        cases kind <;> cases h <;> exact .variable
    | assign target op value => cases h
    | expr e => cases h

theorem bindingOf?_cons (d : Name × Binding) (declared : List (Name × Binding)) (text : String) :
    bindingOf? (d :: declared) text =
      (bindingOf? declared text).or (if d.1.text = text then some d.2 else none) := by
  rw [bindingOf?, List.reverse_cons, List.find?_append, Option.map_or, bindingOf?]
  congr 1
  by_cases h : d.1.text = text <;> simp [h]

theorem lastDeclaration_cons_iff {s s' : Stmt} :
    LastDeclaration (s' :: statements) text s ↔
      LastDeclaration statements text s ∨
        s = s' ∧ s.Declares text ∧ ∀ s'' ∈ statements, ¬ s''.Declares text := by
  constructor
  · rintro ⟨hdeclares, before, after, happend, hlast⟩
    cases before with
    | nil =>
        obtain ⟨rfl, rfl⟩ := List.cons.inj happend
        exact .inr ⟨rfl, hdeclares, hlast⟩
    | cons s'' before =>
        obtain ⟨rfl, rfl⟩ := List.cons.inj happend
        exact .inl ⟨hdeclares, before, after, rfl, hlast⟩
  · rintro (⟨hdeclares, before, after, rfl, hlast⟩ | ⟨rfl, hdeclares, hlast⟩)
    · exact ⟨hdeclares, s' :: before, after, rfl, hlast⟩
    · exact ⟨hdeclares, [], statements, rfl, hlast⟩

theorem bindingOf?_eq_none_iff :
    bindingOf? (declarations statements) text = none ↔ ∀ s ∈ statements, ¬ s.Declares text := by
  rw [← Option.not_isSome_iff_eq_none, isSome_bindingOf?_declarations_iff]
  simp

/-- A name stands for what the last declaration of it says. -/
theorem bindingOf?_eq_some_iff {binding : Binding} :
    bindingOf? (declarations statements) text = some binding ↔
      ∃ s, LastDeclaration statements text s ∧ s.declaration?.map Prod.snd = some binding := by
  induction statements with
  | nil => simp [declarations, bindingOf?, LastDeclaration]
  | cons s statements ih =>
      simp only [lastDeclaration_cons_iff, or_and_right, exists_or, ← ih, and_assoc,
        exists_eq_left]
      rw [declarations, List.filterMap_cons, ← declarations]
      cases hdeclaration : s.declaration? with
      | none => simp
      | some d =>
          have hdeclares : s.Declares text ↔ d.1.text = text := by
            simp [s.declares_iff, hdeclaration]
          rw [bindingOf?_cons, hdeclares, ← bindingOf?_eq_none_iff]
          cases bindingOf? (declarations statements) text <;> simp

theorem bindingOf?_eq_constant_iff :
    bindingOf? (declarations statements) text = some .constant ↔
      ∃ isExported name value,
        LastDeclaration statements text (.variable isExported .constWord name value) := by
  have hconstant (s : Stmt) : s.declaration?.map Prod.snd = some .constant ↔
      ∃ isExported name value, s = .variable isExported .constWord name value := by
    cases s with
    | «variable» isExported kind name value => cases kind <;> simp [Stmt.declaration?]
    | _ => simp [Stmt.declaration?]
  simp only [bindingOf?_eq_some_iff, hconstant]
  constructor
  · rintro ⟨_, h, isExported, name, value, rfl⟩
    exact ⟨isExported, name, value, h⟩
  · rintro ⟨isExported, name, value, h⟩
    exact ⟨_, h, isExported, name, value, rfl⟩

theorem bindingOf?_eq_imported_iff :
    bindingOf? (declarations statements) text = some .imported ↔
      ∃ binding specifier offset,
        LastDeclaration statements text (.imports binding specifier offset) := by
  have himported (s : Stmt) : s.declaration?.map Prod.snd = some .imported ↔
      ∃ binding specifier offset, s = .imports binding specifier offset := by
    cases s with
    | «variable» isExported kind name value => cases kind <;> simp [Stmt.declaration?]
    | _ => simp [Stmt.declaration?]
  simp only [bindingOf?_eq_some_iff, himported]
  constructor
  · rintro ⟨_, h, binding, specifier, offset, rfl⟩
    exact ⟨binding, specifier, offset, h⟩
  · rintro ⟨binding, specifier, offset, h⟩
    exact ⟨_, h, binding, specifier, offset, rfl⟩

/-- A use is reported just if it breaks a rule. -/
theorem Use.offends_iff {f : SourceFile} {globals : List String} {u : Use} {d : Diagnostic} :
    u.Offends f globals statements d ↔
      ∃ e, u.error? (declarations statements) globals = some e ∧ e.diagnostic f = d := by
  constructor
  · rintro (⟨hdeclared, hglobal⟩ | h | h)
    · have hnone := bindingOf?_eq_none_iff.mpr hdeclared
      refine ⟨⟨u.name, .unknown⟩, ?_, rfl⟩
      cases u <;> simp_all [Use.error?, Use.name]
    · have hconstant := bindingOf?_eq_constant_iff.mpr ⟨_, _, _, h⟩
      exact ⟨⟨_, .writtenConstant⟩, by simp only [Use.error?, hconstant], rfl⟩
    · have himported := bindingOf?_eq_imported_iff.mpr ⟨_, _, _, h⟩
      exact ⟨⟨_, .writtenImport⟩, by simp only [Use.error?, himported], rfl⟩
  · rintro ⟨e, he, rfl⟩
    cases u with
    | read n =>
        rw [Use.error?] at he
        split at he
        · cases he
        · next hunknown =>
          cases he
          rw [Bool.or_eq_true, not_or] at hunknown
          refine .unknown (bindingOf?_eq_none_iff.mp (by simpa [Use.name] using hunknown.1)) ?_
          simpa [Use.name] using hunknown.2
    | written n =>
        rw [Use.error?] at he
        split at he
        · next hconstant =>
          cases he
          obtain ⟨isExported, name, value, h⟩ := bindingOf?_eq_constant_iff.mp hconstant
          exact .constant h
        · next himported =>
          cases he
          obtain ⟨binding, specifier, offset, h⟩ := bindingOf?_eq_imported_iff.mp himported
          exact .imported h
        · cases he
        · next hnone =>
          split at he
          · cases he
          · next hglobal =>
            cases he
            exact .unknown (bindingOf?_eq_none_iff.mp hnone) (by simpa [Use.name] using hglobal)

/-! ### Modules -/

/-- Whether the declaration at a place is of a name that is known or that an earlier statement
declares. -/
def RedeclaredFrom (known : String → Prop) (start : Nat) (statements : List Stmt) (place : Place)
    (e : NameError) : Prop :=
  ∃ i s n, statements[i]? = some s ∧ place = [start + i, 0] ∧ s.Introduces n ∧ e = ⟨n, .duplicate⟩ ∧
    (known n.text ∨ ∃ j s', j < i ∧ statements[j]? = some s' ∧ s'.Declares n.text)

theorem redeclaredFrom_cons_iff {known : String → Prop} {start : Nat} {s : Stmt} {place : Place}
    {e : NameError} :
    RedeclaredFrom known start (s :: statements) place e ↔
      (∃ n, place = [start, 0] ∧ s.Introduces n ∧ e = ⟨n, .duplicate⟩ ∧ known n.text) ∨
        RedeclaredFrom (fun text ↦ known text ∨ s.Declares text) (start + 1) statements place
          e := by
  constructor
  · rintro ⟨i, s', n, hs', rfl, hname, rfl, hearlier⟩
    cases i with
    | zero =>
        obtain rfl : s = s' := by simpa using hs'
        obtain hknown | ⟨j, _, hj, -⟩ := hearlier
        · exact .inl ⟨n, rfl, hname, rfl, hknown⟩
        · cases hj
    | succ i =>
        refine .inr ⟨i, s', n, by simpa using hs', by rw [Nat.add_right_comm]; rfl, hname, rfl, ?_⟩
        obtain hknown | ⟨j, s'', hj, hs'', hdeclares⟩ := hearlier
        · exact .inl (.inl hknown)
        · cases j with
          | zero =>
              obtain rfl : s = s'' := by simpa using hs''
              exact .inl (.inr hdeclares)
          | succ j => exact .inr ⟨j, s'', by omega, by simpa using hs'', hdeclares⟩
  · rintro (⟨n, rfl, hname, rfl, hknown⟩ | ⟨i, s', n, hs', rfl, hname, rfl, hearlier⟩)
    · exact ⟨0, s, n, rfl, rfl, hname, rfl, .inl hknown⟩
    · refine ⟨i + 1, s', n, by simpa using hs', by rw [Nat.add_right_comm]; rfl, hname, rfl, ?_⟩
      obtain (hknown | hdeclares) | ⟨j, s'', hj, hs'', hdeclares⟩ := hearlier
      · exact .inl hknown
      · exact .inr ⟨0, s, by omega, rfl, hdeclares⟩
      · exact .inr ⟨j + 1, s'', by omega, by simpa using hs'', hdeclares⟩

theorem listed_duplicatesFrom {known : String → Prop} {earlier : List String}
    (hknown : ∀ text, text ∈ earlier ↔ known text) (start : Nat) (statements : List Stmt) :
    Listed (RedeclaredFrom known start statements)
      (duplicates earlier (declaredNames statements)) := by
  induction statements generalizing known earlier start with
  | nil => exact .of_none fun place e ⟨i, s, n, hs, _⟩ ↦ by simp at hs
  | cons s statements ih =>
      rw [declaredNames, declarations, List.filterMap_cons, ← declarations]
      cases hdeclaration : s.declaration? with
      | none =>
          have hintroduces (n : Name) : ¬ s.Introduces n := by simp [s.introduces_iff, hdeclaration]
          have hdeclares (text : String) : ¬ s.Declares text := by
            simp [s.declares_iff, hdeclaration]
          refine (ih hknown (start + 1)).congr fun place e ↦ ?_
          simp [redeclaredFrom_cons_iff, hintroduces, hdeclares]
      | some d =>
          have hintroduces (n : Name) : s.Introduces n ↔ d.1 = n := by
            simp [s.introduces_iff, hdeclaration, Prod.ext_iff]
          have hdeclares (text : String) : s.Declares text ↔ d.1.text = text := by
            simp [s.declares_iff, hdeclaration]
          dsimp only
          rw [List.map_cons, ← declaredNames, duplicates]
          by_cases hd : d.1.text ∈ earlier
          · have hknown' (text : String) : text ∈ earlier ↔ known text ∨ s.Declares text := by
              rw [hdeclares, hknown, iff_self_or]
              rintro rfl
              exact (hknown _).mp hd
            rw [if_pos (by simpa using hd)]
            refine ((Listed.singleton [start, 0] _).append (ih hknown' (start + 1)) ?_).congr
              fun place e ↦ ?_
            · rintro place place' e e' ⟨rfl, -⟩ ⟨i, s', n, -, rfl, -⟩
              exact List.cons_lt_cons_iff.mpr (.inl (by omega))
            · rw [redeclaredFrom_cons_iff]
              simp [hintroduces, (hknown _).mp hd]
          · have hknown' (text : String) :
                text ∈ d.1.text :: earlier ↔ known text ∨ s.Declares text := by
              rw [List.mem_cons, hknown, hdeclares, or_comm, eq_comm]
            rw [if_neg (by simpa using hd)]
            refine (ih hknown' (start + 1)).congr fun place e ↦ ?_
            rw [redeclaredFrom_cons_iff]
            simp [hintroduces, mt (hknown _).mpr hd]

/-- The second declarations of names are those that are found, in order. -/
theorem listed_duplicates (f : SourceFile) (statements : List Stmt) :
    Listed (Redeclared f statements)
      ((duplicates [] (declaredNames statements)).map (NameError.diagnostic f)) := by
  have hnone (text : String) : text ∈ [] ↔ False := by simp
  rw [← List.filterMap_eq_map]
  refine ((listed_duplicatesFrom hnone 0 statements).filterMap _).congr fun place d ↦ ⟨?_, ?_⟩
  · rintro ⟨_, ⟨i, s, n, hs, rfl, hname, rfl, hearlier⟩, hd⟩
    obtain rfl := Option.some.inj hd
    obtain ⟨j, s', hj, hs', hdeclares⟩ := hearlier.resolve_left id
    rw [Nat.zero_add]
    exact .intro hs hname hj hs' hdeclares
  · rintro ⟨hs, hname, hj, hs', hdeclares⟩
    exact ⟨_, ⟨_, _, _, hs, by rw [Nat.zero_add], hname, rfl, .inr ⟨_, _, hj, hs', hdeclares⟩⟩, rfl⟩

theorem listed_misuses (f : SourceFile) (globals : List String) (statements : List Stmt) :
    Listed (Misused f globals statements)
      (((statements.flatMap Stmt.uses).filterMap
        (Use.error? (declarations statements) globals)).map (NameError.diagnostic f)) := by
  rw [List.map_filterMap]
  refine ((Listed.flatMap (fun s _ ↦ s.listed_uses) 0).filterMap _).congr fun place d ↦ ⟨?_, ?_⟩
  · rintro ⟨u, ⟨i, s, hs, rest, rfl, huse⟩, hd⟩
    rw [Nat.zero_add]
    exact ⟨i, s, rest, u, hs, rfl, huse, Use.offends_iff.mpr (Option.map_eq_some_iff.mp hd)⟩
  · rintro ⟨i, s, rest, u, hs, rfl, huse, hoffends⟩
    refine ⟨u, ⟨i, s, hs, rest, by rw [Nat.zero_add], huse⟩, ?_⟩
    exact Option.map_eq_some_iff.mpr (Use.offends_iff.mp hoffends)

end Last

/-! ### All names -/

theorem Stmt.listed_introduced (s : Stmt) :
    Listed (fun place n ↦ place = [0] ∧ s.Introduces n)
      (s.declaration?.map Prod.fst).toList := by
  simp only [Stmt.introduces_iff]
  cases s.declaration? with
  | none =>
      apply Listed.of_none
      rintro place n ⟨-, binding, ⟨⟩⟩
  | some d =>
      refine (Listed.singleton [0] d.1).congr fun place n ↦ and_congr_right fun _ ↦ ?_
      constructor
      · rintro rfl
        exact ⟨d.2, rfl⟩
      · rintro ⟨binding, hd⟩
        rw [Option.some.inj hd]

/-- A name is declared before names are used. -/
theorem Stmt.introduced_lt_used {s : Stmt} {n : Name} {u : Use} {place : Place}
    (hn : s.Introduces n) (hu : s.UseAt place u) : [0] < place := by
  cases hn with
  | imports => cases hu
  | declares => cases hu
  | «variable» =>
      cases hu with
      | initial h => exact List.cons_lt_cons_iff.mpr (.inl Nat.zero_lt_one)

/-- The names of a statement are those that stand in it, in order. -/
theorem Stmt.listed_names (s : Stmt) : Listed s.NameAt s.names := by
  have hused := s.listed_uses.filterMap (some ∘ Use.name)
  rw [List.filterMap_eq_map] at hused
  refine (s.listed_introduced.append hused ?_).congr fun place n ↦ ⟨?_, ?_⟩
  · rintro place place' n n' ⟨rfl, hn⟩ ⟨u, hu, -⟩
    exact Stmt.introduced_lt_used hn hu
  · rintro (⟨rfl, hn⟩ | ⟨u, hu, hname⟩)
    · exact .introduced hn
    · obtain rfl := Option.some.inj hname
      exact .used hu
  · rintro (hn | hu)
    · exact .inl ⟨rfl, hn⟩
    · exact .inr ⟨_, hu, rfl⟩

/-- The names of a module are those that stand in it, in order. -/
theorem listed_names (statements : List Stmt) :
    Listed (NameAt statements) (statements.flatMap Stmt.names) :=
  Listed.flatMap (fun s _ ↦ s.listed_names) 0

section Texts

variable {cs : List Char} {tree : SyntaxTree}

/-- A name that stands in a module that is read from a text is a word of the text, at its place. -/
theorem NameAt.wordAt (h : SyntaxTree.ofText? cs = some tree) {place : Place} {n : Name}
    (hn : NameAt tree.statements place n) : WordAt cs n.offset n.text :=
  SyntaxTree.wordAt_of_mem_names h ((listed_names tree.statements).mem_iff.mpr ⟨place, hn⟩)

/-- The names of a module that is read from a text stand in the text as they do in the module. -/
theorem NameAt.offset_lt (h : SyntaxTree.ofText? cs = some tree) {place place' : Place}
    {n n' : Name} (hn : NameAt tree.statements place n) (hn' : NameAt tree.statements place' n')
    (hlt : place < place') : n.offset < n'.offset :=
  (listed_names tree.statements).rel_of_lt (SyntaxTree.pairwise_names h) hn hn' hlt

end Texts

/-- The occurrences of names in a module that break a rule are reported, each where it stands:
first the declarations of names that earlier statements declare, in order, then the uses of names
against the rules, in order.  Nothing else is reported.  If the module is read from a text, each
name is a word of the text at its place, and the order is that of the text. -/
theorem checkNames_listed (f : SourceFile) (globals : List String) (statements : List Stmt) :
    (∃ redeclared misused, checkNames f globals statements = redeclared ++ misused ∧
        Listed (Redeclared f statements) redeclared ∧
        Listed (Misused f globals statements) misused) ∧
      (checkNames f globals statements = [] ↔
        (∀ place d, ¬ Redeclared f statements place d) ∧
          ∀ place d, ¬ Misused f globals statements place d) ∧
      ∀ cs tree, SyntaxTree.ofText? cs = some tree → tree.statements = statements →
        (∀ place n, NameAt statements place n → WordAt cs n.offset n.text) ∧
          ∀ place place' n n', NameAt statements place n → NameAt statements place' n' →
            place < place' → n.offset < n'.offset := by
  have hredeclared := listed_duplicates f statements
  have hmisused := listed_misuses f globals statements
  have happend : checkNames f globals statements =
      (duplicates [] (declaredNames statements)).map (NameError.diagnostic f) ++
        ((statements.flatMap Stmt.uses).filterMap
          (Use.error? (declarations statements) globals)).map (NameError.diagnostic f) :=
    List.map_append
  refine ⟨⟨_, _, happend, hredeclared, hmisused⟩, ?_, ?_⟩
  · rw [← hredeclared.eq_nil_iff, ← hmisused.eq_nil_iff, ← List.append_eq_nil_iff, happend]
  · rintro cs tree htree rfl
    constructor
    · intro place n hn
      exact hn.wordAt htree
    · intro place place' n n' hn hn' hlt
      exact hn.offset_lt htree hn' hlt

end PipedCompiler.Language
