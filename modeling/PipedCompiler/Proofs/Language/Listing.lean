import Mathlib.Data.List.Basic

/-!
# Things in the order of their places

A place in a tree is the way down to it.  A list gives what stands at the places of a tree in order
if it has one thing for each place that has one, and the place of each comes before those of all
that follow it.
-/

namespace PipedCompiler.Language

/-- The way down to a part of something: which part it is at each step. -/
abbrev Place := List Nat

variable {α β : Type}

/-- Whether these are the things that stand somewhere, each once and in the order of their
places. -/
def Listed (At : Place → α → Prop) (as : List α) : Prop :=
  ∃ placed : List (Place × α), placed.map Prod.snd = as ∧
    placed.Pairwise (fun p q ↦ p.1 < q.1) ∧ ∀ place a, (place, a) ∈ placed ↔ At place a

/-- Whether something stands somewhere in one part. -/
def Under (k : Nat) (At : Place → α → Prop) (place : Place) (a : α) : Prop :=
  ∃ rest, place = k :: rest ∧ At rest a

/-- Whether something stands somewhere in one of the parts from a number on. -/
def InParts (start : Nat) (At : β → Place → α → Prop) (parts : List β) (place : Place) (a : α) :
    Prop :=
  ∃ i part, parts[i]? = some part ∧ Under (start + i) (At part) place a

section Listed

variable {At At' : Place → α → Prop} {as bs : List α}

theorem Listed.congr (h : Listed At as) (hiff : ∀ place a, At place a ↔ At' place a) :
    Listed At' as := by
  obtain ⟨placed, hmap, hsorted, hmem⟩ := h
  exact ⟨placed, hmap, hsorted, fun place a ↦ (hmem place a).trans (hiff place a)⟩

theorem Listed.of_none (h : ∀ place a, ¬ At place a) : Listed At [] :=
  ⟨[], rfl, .nil, fun place a ↦ iff_of_false List.not_mem_nil (h place a)⟩

theorem Listed.singleton (place : Place) (a : α) :
    Listed (fun place' a' ↦ place' = place ∧ a' = a) [a] :=
  ⟨[(place, a)], rfl, List.pairwise_singleton _ _, fun place' a' ↦ by simp⟩

theorem Listed.mem_iff (h : Listed At as) {a : α} : a ∈ as ↔ ∃ place, At place a := by
  obtain ⟨placed, rfl, -, hmem⟩ := h
  simp [← hmem]

theorem Listed.eq_nil_iff (h : Listed At as) : as = [] ↔ ∀ place a, ¬ At place a := by
  rw [List.eq_nil_iff_forall_not_mem]
  simp only [h.mem_iff, not_exists]
  exact forall_comm

theorem rel_of_lt_of_mem {R : α → α → Prop} {placed : List (Place × α)}
    (hsorted : placed.Pairwise fun p q ↦ p.1 < q.1) (hR : placed.Pairwise fun p q ↦ R p.2 q.2)
    {p q : Place × α} (hp : p ∈ placed) (hq : q ∈ placed) (hlt : p.1 < q.1) : R p.2 q.2 := by
  induction placed with
  | nil => cases hp
  | cons r placed ih =>
      rw [List.pairwise_cons] at hsorted hR
      rcases List.mem_cons.mp hp with rfl | hp'
      · rcases List.mem_cons.mp hq with rfl | hq'
        · exact absurd hlt (List.lt_irrefl _)
        · exact hR.1 q hq'
      · rcases List.mem_cons.mp hq with rfl | hq'
        · exact absurd hlt (List.lt_asymm (hsorted.1 p hp'))
        · exact ih hsorted.2 hR.2 hp' hq'

/-- What holds of things that follow one another holds of all that stand in this order. -/
theorem Listed.rel_of_lt {R : α → α → Prop} (h : Listed At as) (hR : as.Pairwise R)
    {place place' : Place} {a b : α} (ha : At place a) (hb : At place' b) (hlt : place < place') :
    R a b := by
  obtain ⟨placed, rfl, hsorted, hmem⟩ := h
  rw [List.pairwise_map] at hR
  exact rel_of_lt_of_mem hsorted hR ((hmem place a).mpr ha) ((hmem place' b).mpr hb) hlt

theorem Listed.under (h : Listed At as) (k : Nat) : Listed (Under k At) as := by
  obtain ⟨placed, rfl, hsorted, hmem⟩ := h
  refine ⟨placed.map fun p ↦ (k :: p.1, p.2), by simp, ?_, fun place a ↦ ?_⟩
  · rw [List.pairwise_map]
    refine hsorted.imp fun hlt ↦ ?_
    exact List.cons_lt_cons_iff.mpr (.inr ⟨rfl, hlt⟩)
  · simp only [List.mem_map, Prod.exists, Prod.mk.injEq, Under, ← hmem]
    constructor
    · rintro ⟨rest, _, hrest, rfl, rfl⟩
      exact ⟨rest, rfl, hrest⟩
    · rintro ⟨rest, rfl, hrest⟩
      exact ⟨rest, a, hrest, rfl, rfl⟩

/-- Two lists follow one another if the places of the first come before those of the second. -/
theorem Listed.append (h : Listed At as) (h' : Listed At' bs)
    (hlt : ∀ place place' a b, At place a → At' place' b → place < place') :
    Listed (fun place a ↦ At place a ∨ At' place a) (as ++ bs) := by
  obtain ⟨placed, rfl, hsorted, hmem⟩ := h
  obtain ⟨placed', rfl, hsorted', hmem'⟩ := h'
  refine ⟨placed ++ placed', List.map_append, ?_, fun place a ↦ ?_⟩
  · rw [List.pairwise_append]
    refine ⟨hsorted, hsorted', fun p hp q hq ↦ ?_⟩
    exact hlt p.1 q.1 p.2 q.2 ((hmem _ _).mp hp) ((hmem' _ _).mp hq)
  · rw [List.mem_append, hmem, hmem']

theorem Listed.filterMap (h : Listed At as) (f : α → Option β) :
    Listed (fun place b ↦ ∃ a, At place a ∧ f a = some b) (as.filterMap f) := by
  obtain ⟨placed, rfl, hsorted, hmem⟩ := h
  refine ⟨placed.filterMap fun p ↦ (f p.2).map (p.1, ·), ?_, ?_, fun place b ↦ ?_⟩
  · rw [List.map_filterMap, List.filterMap_map]
    congr 1
    funext p
    simp [Function.comp_def]
  · rw [List.pairwise_filterMap]
    refine hsorted.imp fun hlt p hp q hq ↦ ?_
    obtain ⟨b, -, rfl⟩ := Option.map_eq_some_iff.mp hp
    obtain ⟨c, -, rfl⟩ := Option.map_eq_some_iff.mp hq
    exact hlt
  · simp only [List.mem_filterMap, Option.map_eq_some_iff, Prod.exists, Prod.mk.injEq, ← hmem]
    constructor
    · rintro ⟨_, a, ha, _, hb, rfl, rfl⟩
      exact ⟨a, ha, hb⟩
    · rintro ⟨a, ha, hb⟩
      exact ⟨place, a, ha, b, hb, rfl, rfl⟩

theorem under_lt_under {k k' : Nat} (hlt : k < k') {place place' : Place} {a : α} {b : β}
    {At : Place → α → Prop} {At' : Place → β → Prop} (h : Under k At place a)
    (h' : Under k' At' place' b) : place < place' := by
  obtain ⟨rest, rfl, -⟩ := h
  obtain ⟨rest', rfl, -⟩ := h'
  exact List.cons_lt_cons_iff.mpr (.inl hlt)

theorem inParts_cons_iff {start : Nat} {At : β → Place → α → Prop} {part : β} {parts : List β}
    {place : Place} {a : α} :
    InParts start At (part :: parts) place a ↔
      Under start (At part) place a ∨ InParts (start + 1) At parts place a := by
  constructor
  · rintro ⟨i, part', hpart, hunder⟩
    cases i with
    | zero =>
        obtain rfl : part = part' := by simpa using hpart
        exact .inl hunder
    | succ i => exact .inr ⟨i, part', by simpa using hpart, by rwa [Nat.add_right_comm]⟩
  · rintro (hunder | ⟨i, part', hpart, hunder⟩)
    · exact ⟨0, part, rfl, hunder⟩
    · exact ⟨i + 1, part', by simpa using hpart, by rwa [Nat.add_right_comm] at hunder⟩

/-- What stands in some parts is listed part by part. -/
theorem Listed.flatMap {At : β → Place → α → Prop} {items : β → List α} {parts : List β}
    (h : ∀ part ∈ parts, Listed (At part) (items part)) (start : Nat) :
    Listed (InParts start At parts) (parts.flatMap items) := by
  induction parts generalizing start with
  | nil => exact .of_none fun place a ⟨i, part, hpart, _⟩ ↦ by simp at hpart
  | cons part parts ih =>
      rw [List.forall_mem_cons] at h
      rw [List.flatMap_cons]
      refine (Listed.append (h.1.under start) (ih h.2 (start + 1)) ?_).congr
        fun place a ↦ inParts_cons_iff.symm
      rintro place place' a b hunder ⟨i, part', -, hunder'⟩
      exact under_lt_under (by omega) hunder hunder'

end Listed

end PipedCompiler.Language
