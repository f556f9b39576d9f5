import Mathlib.Data.List.Nodup
import PipedCompiler.Language.Names

/-!
# Modules without name errors

A module has no name errors if and only if all names that it uses are declared in it or known
everywhere, no two of its statements declare the same name, and it assigns to no constant and to no
import.
-/

namespace PipedCompiler.Language

/-! ## Occurrences of names -/

section Mentions

variable (text : String)

/-- Whether an expression reads or calls a name. -/
inductive Expr.Mentions : Expr → Prop
  | name {name : Name} (h : name.text = text) : Mentions (.name name)
  | neg {operand : Expr} (h : operand.Mentions) : Mentions (.neg operand)
  | left {op : BinaryOp} {lhs rhs : Expr} (h : lhs.Mentions) : Mentions (.binary op lhs rhs)
  | right {op : BinaryOp} {lhs rhs : Expr} (h : rhs.Mentions) : Mentions (.binary op lhs rhs)
  | callee {callee : Name} {args : List Expr} (h : callee.text = text) :
      Mentions (.call callee args)
  | argument {callee : Name} {args : List Expr} {arg : Expr} (hmem : arg ∈ args)
      (h : arg.Mentions) : Mentions (.call callee args)
  | paren {inner : Expr} (h : inner.Mentions) : Mentions (.paren inner)

/-- Whether a statement reads or calls a name, or assigns to it. -/
inductive Stmt.Mentions : Stmt → Prop
  | initial {isExported : Bool} {kind : VariableKind} {name : Name} {value : Expr}
      (h : value.Mentions text) : Mentions (.variable isExported kind name (some value))
  | target {target : Name} {op : AssignOp} {value : Expr} (h : target.text = text) :
      Mentions (.assign target op value)
  | assigned {target : Name} {op : AssignOp} {value : Expr} (h : value.Mentions text) :
      Mentions (.assign target op value)
  | expr {e : Expr} (h : e.Mentions text) : Mentions (.expr e)

/-- Whether a statement declares a name. -/
inductive Stmt.Declares : Stmt → Prop
  | imports {binding : Name} {specifier : String} {offset : Nat} (h : binding.text = text) :
      Declares (.imports binding specifier offset)
  | declares {name : Name} (h : name.text = text) : Declares (.declares name)
  | variable {isExported : Bool} {kind : VariableKind} {name : Name} {value : Option Expr}
      (h : name.text = text) : Declares (.variable isExported kind name value)

/-- Whether a statement declares a name that keeps its value: an import or a constant. -/
inductive Stmt.Fixes : Stmt → Prop
  | imports {binding : Name} {specifier : String} {offset : Nat} (h : binding.text = text) :
      Fixes (.imports binding specifier offset)
  | constant {isExported : Bool} {name : Name} {value : Option Expr} (h : name.text = text) :
      Fixes (.variable isExported .constWord name value)

end Mentions

/-- Whether a module uses its names as it may, where some names are known everywhere. -/
structure WellNamed (isGlobal : String → Prop) (statements : List Stmt) : Prop where
  /-- All names that are used are declared. -/
  declared : ∀ s ∈ statements, ∀ text, s.Mentions text →
    (∃ d ∈ statements, d.Declares text) ∨ isGlobal text
  /-- No two statements declare one name. -/
  unique : statements.Pairwise fun s s' ↦ ∀ text, s.Declares text → ¬ s'.Declares text
  /-- Constants and imports keep their values. -/
  kept : ∀ target op value, Stmt.assign target op value ∈ statements →
    ∀ d ∈ statements, ¬ d.Fixes target.text

/-- The more is known everywhere, the more names may be used. -/
theorem WellNamed.mono {isGlobal isGlobal' : String → Prop} {statements : List Stmt}
    (h : WellNamed isGlobal statements) (hglobal : ∀ text, isGlobal text → isGlobal' text) :
    WellNamed isGlobal' statements :=
  ⟨fun s hs text hmentions ↦ (h.declared s hs text hmentions).imp_right (hglobal text),
    h.unique, h.kept⟩

/-! ## The names in an expression -/

/-- The names in some expressions are those in each of them. -/
theorem Expr.namesOfList_eq (es : List Expr) : Expr.namesOfList es = es.flatMap Expr.names := by
  induction es with
  | nil => rfl
  | cons e es ih => rw [Expr.namesOfList, ih, List.flatMap_cons]

mutual

/-- What an expression mentions is among its names. -/
theorem Expr.mentions_iff {text : String} :
    (e : Expr) → (e.Mentions text ↔ ∃ n ∈ e.names, n.text = text)
  | .number _ => ⟨nofun, nofun⟩
  | .str _ => ⟨nofun, nofun⟩
  | .name n => by
    constructor
    · rintro ⟨h⟩
      exact ⟨n, List.mem_singleton_self n, h⟩
    · rintro ⟨m, hm, h⟩
      obtain rfl := List.mem_singleton.mp hm
      exact .name h
  | .neg operand => by
    rw [Expr.names, ← mentions_iff operand]
    exact ⟨fun | .neg h => h, .neg⟩
  | .binary op lhs rhs => by
    simp only [Expr.names, List.mem_append, or_and_right, exists_or]
    rw [← mentions_iff lhs, ← mentions_iff rhs]
    exact ⟨fun | .left h => .inl h | .right h => .inr h,
      fun | .inl h => .left h | .inr h => .right h⟩
  | .call callee args => by
    simp only [Expr.names, List.mem_cons, exists_eq_or_imp]
    rw [← mentions_list_iff args]
    exact ⟨fun | .callee h => .inl h | .argument hmem h => .inr ⟨_, hmem, h⟩,
      fun | .inl h => .callee h | .inr ⟨_, hmem, h⟩ => .argument hmem h⟩
  | .paren inner => by
    rw [Expr.names, ← mentions_iff inner]
    exact ⟨fun | .paren h => h, .paren⟩

theorem Expr.mentions_list_iff {text : String} :
    (es : List Expr) →
      ((∃ e ∈ es, e.Mentions text) ↔ ∃ n ∈ Expr.namesOfList es, n.text = text)
  | [] => ⟨nofun, nofun⟩
  | e :: es => by
    simp only [Expr.namesOfList, List.mem_append, List.mem_cons, or_and_right, exists_or,
      exists_eq_left]
    rw [← mentions_iff e, ← mentions_list_iff es]

end

/-! ## The names in a statement -/

/-- The name that is used. -/
def Use.name : Use → Name
  | .read n => n
  | .written n => n

theorem exists_mem_map_read {text : String} {names : List Name} :
    (∃ u ∈ names.map Use.read, u.name.text = text) ↔ ∃ n ∈ names, n.text = text := by
  constructor
  · rintro ⟨_, hu, h⟩
    obtain ⟨n, hn, rfl⟩ := List.mem_map.mp hu
    exact ⟨n, hn, h⟩
  · rintro ⟨n, hn, h⟩
    exact ⟨.read n, List.mem_map_of_mem hn, h⟩

theorem Stmt.mentions_iff {text : String} (s : Stmt) :
    s.Mentions text ↔ ∃ u ∈ s.uses, u.name.text = text := by
  cases s with
  | imports binding specifier offset => exact ⟨nofun, nofun⟩
  | declares name => exact ⟨nofun, nofun⟩
  | «variable» isExported kind name value =>
      cases value with
      | none => exact ⟨nofun, nofun⟩
      | some value =>
          rw [Stmt.uses, exists_mem_map_read, ← value.mentions_iff]
          exact ⟨fun | .initial h => h, .initial⟩
  | assign target op value =>
      simp only [Stmt.uses, List.mem_cons, exists_eq_or_imp, exists_mem_map_read]
      rw [← value.mentions_iff]
      exact ⟨fun | .target h => .inl h | .assigned h => .inr h,
        fun | .inl h => .target h | .inr h => .assigned h⟩
  | expr e =>
      rw [Stmt.uses, exists_mem_map_read, ← e.mentions_iff]
      exact ⟨fun | .expr h => h, .expr⟩

/-- Only assignments write names. -/
theorem Stmt.written_mem_uses {s : Stmt} {n : Name} :
    .written n ∈ s.uses ↔ ∃ op value, s = .assign n op value := by
  cases s with
  | imports binding specifier offset => simp [Stmt.uses]
  | declares name => simp [Stmt.uses]
  | «variable» isExported kind name value =>
      cases value with
      | none => simp [Stmt.uses]
      | some value => simp [Stmt.uses]
  | assign target op value => simp [Stmt.uses, eq_comm]
  | expr e => simp [Stmt.uses]

theorem Stmt.declares_iff {text : String} (s : Stmt) :
    s.Declares text ↔ ∃ d ∈ s.declaration?, d.1.text = text := by
  cases s with
  | imports binding specifier offset =>
      simpa [Stmt.declaration?] using ⟨fun | .imports h => h, .imports⟩
  | declares name => simpa [Stmt.declaration?] using ⟨fun | .declares h => h, .declares⟩
  | «variable» isExported kind name value =>
      cases kind <;> simpa [Stmt.declaration?] using ⟨fun | .variable h => h, .variable⟩
  | assign target op value => exact ⟨nofun, nofun⟩
  | expr e => exact ⟨nofun, nofun⟩

/-- Whether a name that stands for this keeps its value. -/
def Binding.IsFixed : Binding → Prop
  | .constant | .imported => True
  | .changeable | .ambient => False

theorem Stmt.fixes_iff {text : String} (s : Stmt) :
    s.Fixes text ↔ ∃ d ∈ s.declaration?, d.1.text = text ∧ d.2.IsFixed := by
  cases s with
  | imports binding specifier offset =>
      simpa [Stmt.declaration?, Binding.IsFixed] using ⟨fun | .imports h => h, .imports⟩
  | declares name => simpa [Stmt.declaration?, Binding.IsFixed] using nofun
  | «variable» isExported kind name value =>
      cases kind with
      | constWord =>
          simpa [Stmt.declaration?, Binding.IsFixed] using ⟨fun | .constant h => h, .constant⟩
      | letWord => simpa [Stmt.declaration?, Binding.IsFixed] using nofun
      | bare => simpa [Stmt.declaration?, Binding.IsFixed] using nofun
  | assign target op value => exact ⟨nofun, nofun⟩
  | expr e => exact ⟨nofun, nofun⟩

/-! ## Declarations -/

/-- There are no duplicates just if all names differ from each other and from the earlier ones. -/
theorem duplicates_eq_nil_iff {earlier : List String} {ns : List Name} :
    duplicates earlier ns = [] ↔
      (ns.map Name.text).Nodup ∧ ∀ n ∈ ns, n.text ∉ earlier := by
  induction ns generalizing earlier with
  | nil => simp [duplicates]
  | cons n ns ih =>
      rw [duplicates, List.map_cons, List.nodup_cons, List.forall_mem_cons]
      by_cases hearlier : n.text ∈ earlier
      · simp [hearlier]
      · rw [if_neg (by simpa using hearlier), ih]
        simp only [List.mem_map, List.mem_cons, not_or, hearlier, not_false_eq_true, true_and,
          not_exists, not_and]
        constructor
        · rintro ⟨hnodup, hnew⟩
          exact ⟨⟨fun m hm ↦ (hnew m hm).1, hnodup⟩, fun m hm ↦ (hnew m hm).2⟩
        · rintro ⟨⟨hne, hnodup⟩, hnew⟩
          exact ⟨hnodup, fun m hm ↦ ⟨hne m hm, hnew m hm⟩⟩

section Bindings

variable {declared : List (Name × Binding)} {globals : List String} {text : String}

theorem isSome_bindingOf?_iff :
    (bindingOf? declared text).isSome = true ↔ ∃ d ∈ declared, d.1.text = text := by
  simp [bindingOf?]

/-- What a name stands for comes from a declaration of it. -/
theorem exists_of_bindingOf?_eq_some {binding : Binding}
    (h : bindingOf? declared text = some binding) :
    ∃ d ∈ declared, d.1.text = text ∧ d.2 = binding := by
  obtain ⟨d, hfind, hbinding⟩ := Option.map_eq_some_iff.mp h
  have hmem : d ∈ declared := by simpa using List.mem_of_find?_eq_some hfind
  have htext : d.1.text = text := by simpa using List.find?_some hfind
  exact ⟨d, hmem, htext, hbinding⟩

/-- Where no name is declared twice, a name stands for what its declaration says. -/
theorem bindingOf?_eq_some_of_mem (hnodup : (declared.map (·.1.text)).Nodup)
    {d : Name × Binding} (hd : d ∈ declared) : bindingOf? declared d.1.text = some d.2 := by
  obtain ⟨binding, hbinding⟩ := Option.isSome_iff_exists.mp
    (isSome_bindingOf?_iff.mpr ⟨d, hd, rfl⟩)
  obtain ⟨d', hd', htext, rfl⟩ := exists_of_bindingOf?_eq_some hbinding
  rw [hbinding, List.inj_on_of_nodup_map hnodup hd' hd htext]

/-- A use is right if its name is declared or known everywhere, and keeps its value unless it may be
changed. -/
theorem Use.error?_eq_none_iff {u : Use} :
    u.error? declared globals = none ↔
      ((bindingOf? declared u.name.text).isSome = true ∨ u.name.text ∈ globals) ∧
        ∀ n, u = .written n → ∀ binding ∈ bindingOf? declared n.text, ¬ binding.IsFixed := by
  cases u with
  | read n =>
      simp only [Use.error?, Use.name]
      cases bindingOf? declared n.text with
      | none => simp
      | some binding => simp
  | written n =>
      simp only [Use.error?, Use.name]
      cases hbinding : bindingOf? declared n.text with
      | none => simp [hbinding]
      | some binding => cases binding <;> simp [hbinding, Binding.IsFixed]

end Bindings

/-! ## Modules -/

section Module

variable {globals : List String} {statements : List Stmt}

theorem exists_mem_declarations {p : Name × Binding → Prop} :
    (∃ d ∈ declarations statements, p d) ↔ ∃ s ∈ statements, ∃ d ∈ s.declaration?, p d := by
  simp only [declarations, List.mem_filterMap]
  constructor
  · rintro ⟨d, ⟨s, hs, hd⟩, hp⟩
    exact ⟨s, hs, d, hd, hp⟩
  · rintro ⟨s, hs, d, hd, hp⟩
    exact ⟨d, ⟨s, hs, hd⟩, hp⟩

/-- A name stands for something if and only if a statement declares it. -/
theorem isSome_bindingOf?_declarations_iff {text : String} :
    (bindingOf? (declarations statements) text).isSome = true ↔
      ∃ s ∈ statements, s.Declares text := by
  simp only [isSome_bindingOf?_iff, exists_mem_declarations, Stmt.declares_iff]

theorem mem_map_declaredNames_iff {text : String} :
    text ∈ (declaredNames statements).map Name.text ↔ ∃ s ∈ statements, s.Declares text := by
  simp only [declaredNames, List.map_map, List.mem_map, Function.comp_apply,
    exists_mem_declarations, Stmt.declares_iff]

/-- Names are declared once each if and only if no two statements declare the same one. -/
theorem nodup_declarations_iff :
    ((declarations statements).map (·.1.text)).Nodup ↔
      statements.Pairwise fun s s' ↦ ∀ text, s.Declares text → ¬ s'.Declares text := by
  rw [List.Nodup, List.pairwise_map, declarations, List.pairwise_filterMap]
  refine List.Pairwise.iff fun s s' ↦ ?_
  simp only [Stmt.declares_iff]
  constructor
  · rintro h text ⟨d, hd, rfl⟩ ⟨d', hd', htext⟩
    exact h d hd d' hd' htext.symm
  · intro h d hd d' hd' htext
    exact h d.1.text ⟨d, hd, rfl⟩ ⟨d', hd', htext.symm⟩

/-- A module has no name errors if and only if it uses its names as it may. -/
theorem nameErrors_eq_nil_iff :
    nameErrors globals statements = [] ↔ WellNamed (· ∈ globals) statements := by
  have hnodup : duplicates [] ((declarations statements).map Prod.fst) = [] ↔
      ((declarations statements).map (·.1.text)).Nodup := by
    simp [duplicates_eq_nil_iff, Function.comp_def]
  rw [nameErrors, List.append_eq_nil_iff, hnodup, List.filterMap_eq_nil_iff]
  constructor
  · rintro ⟨hnodup, huses⟩
    refine ⟨fun s hs text hmentions ↦ ?_, nodup_declarations_iff.mp hnodup, ?_⟩
    · obtain ⟨u, hu, rfl⟩ := s.mentions_iff.mp hmentions
      have huse := Use.error?_eq_none_iff.mp (huses u (List.mem_flatMap.mpr ⟨s, hs, hu⟩))
      rw [isSome_bindingOf?_declarations_iff] at huse
      exact huse.1
    · intro target op value hs d hd hfixes
      obtain ⟨⟨name, binding⟩, hdeclaration, htext, hfixed⟩ := d.fixes_iff.mp hfixes
      -- The last declaration of a name counts, and here it is the only one.
      have hbinding := bindingOf?_eq_some_of_mem hnodup
        (List.mem_filterMap.mpr ⟨d, hd, hdeclaration⟩)
      rw [htext] at hbinding
      have hwritten : .written target ∈ (Stmt.assign target op value).uses :=
        Stmt.written_mem_uses.mpr ⟨op, value, rfl⟩
      have huse := Use.error?_eq_none_iff.mp
        (huses (.written target) (List.mem_flatMap.mpr ⟨_, hs, hwritten⟩))
      exact huse.2 target rfl binding hbinding hfixed
  · intro h
    refine ⟨nodup_declarations_iff.mpr h.unique, fun u hu ↦ ?_⟩
    obtain ⟨s, hs, hu⟩ := List.mem_flatMap.mp hu
    refine Use.error?_eq_none_iff.mpr ⟨?_, ?_⟩
    · rw [isSome_bindingOf?_declarations_iff]
      exact h.declared s hs u.name.text (s.mentions_iff.mpr ⟨u, hu, rfl⟩)
    · rintro n rfl binding hbinding hfixed
      obtain ⟨op, value, rfl⟩ := Stmt.written_mem_uses.mp hu
      obtain ⟨d, hd, htext, rfl⟩ := exists_of_bindingOf?_eq_some hbinding
      obtain ⟨s, hs', hd⟩ := List.mem_filterMap.mp hd
      exact h.kept n op value hs s hs' (s.fixes_iff.mpr ⟨d, hd, htext, hfixed⟩)

end Module

end PipedCompiler.Language
