import Mathlib.Data.List.Basic

/-!
# Patterns

A pattern may fit a text in several ways.  They are tried in an order, and the first one counts, be
it the longest or not: of two patterns the first is tried before the second, and a run of characters
says whether it is to be long or short.
-/

namespace PipedCompiler.Text

/-- A pattern whose parts have names. -/
inductive Pattern (ν : Type) where
  /-- Just these characters. -/
  | text (expected : List Char)
  /-- One character of a kind. -/
  | one (p : Char → Bool)
  /-- Characters of a kind, as many as possible. -/
  | many (p : Char → Bool)
  /-- Characters of a kind, as few as possible. -/
  | few (p : Char → Bool)
  /-- One pattern behind the other. -/
  | seq (a b : Pattern ν)
  /-- One pattern, or else the other. -/
  | either (a b : Pattern ν)
  /-- A pattern that is a part. -/
  | part (name : ν) (a : Pattern ν)

/-- What a pattern has been found to fit: some characters, with the parts among them, in front of
the rest of a text. -/
structure Match (ν : Type) where
  taken : List Char
  parts : List (ν × List Char)
  rest : List Char

/-- A match and one that follows it. -/
def Match.append {ν : Type} (m n : Match ν) : Match ν :=
  ⟨m.taken ++ n.taken, m.parts ++ n.parts, n.rest⟩

theorem Match.comp_append {ν β : Type} (k : Match ν → β) (l m : Match ν) :
    (k ∘ l.append) ∘ m.append = k ∘ (l.append m).append := by
  funext n
  simp [Match.append]

/-- The runs of characters of a kind in front of a text, each with the rest, the shortest first. -/
def runs (p : Char → Bool) : List Char → List (List Char × List Char)
  | [] => [([], [])]
  | c :: cs =>
    ([], c :: cs) :: if p c then (runs p cs).map fun (run, rest) ↦ (c :: run, rest) else []

namespace Pattern

variable {ν : Type}

/-- What a pattern fits in front of a text, in the order in which it is tried. -/
def attempts : Pattern ν → List Char → List (Match ν)
  | .text expected, cs =>
    if expected.isPrefixOf cs then [⟨expected, [], cs.drop expected.length⟩] else []
  | .one _, [] => []
  | .one p, c :: cs => if p c then [⟨[c], [], cs⟩] else []
  | .many p, cs => (runs p cs).reverse.map fun (run, rest) ↦ ⟨run, [], rest⟩
  | .few p, cs => (runs p cs).map fun (run, rest) ↦ ⟨run, [], rest⟩
  | .seq a b, cs => (a.attempts cs).flatMap fun m ↦ (b.attempts m.rest).map m.append
  | .either a b, cs => a.attempts cs ++ b.attempts cs
  | .part name a, cs => (a.attempts cs).map fun m ↦ { m with parts := (name, m.taken) :: m.parts }

/-- What a pattern fits first of all that leaves nothing of a text. -/
def first? (a : Pattern ν) (cs : List Char) : Option (Match ν) :=
  (a.attempts cs).find? (·.rest.isEmpty)

/-- A pattern, or else nothing. -/
def optional (a : Pattern ν) : Pattern ν :=
  .either a (.text [])

/-- Characters of a kind, one at least and as many as possible. -/
def oneOrMore (p : Char → Bool) : Pattern ν :=
  .seq (.one p) (.many p)

/-- Characters of a kind, one at least and as few as possible. -/
def oneOrFew (p : Char → Bool) : Pattern ν :=
  .seq (.one p) (.few p)

/-- A run of characters that is to be short is tried without any first. -/
theorem attempts_few (p : Char → Bool) (cs : List Char) :
    (few p : Pattern ν).attempts cs = ⟨[], [], cs⟩ :: (oneOrFew p).attempts cs := by
  cases cs with
  | nil => rfl
  | cons c cs =>
      by_cases hc : p c = true
      · simp [oneOrFew, attempts, runs, hc, Match.append]
      · simp [oneOrFew, attempts, runs, hc]

/-! ## What fits -/

/-- Whether a pattern fits just these characters, with these parts. -/
def Fits : Pattern ν → List Char → List (ν × List Char) → Prop
  | .text expected, cs, parts => cs = expected ∧ parts = []
  | .one p, cs, parts => ∃ c, p c = true ∧ cs = [c] ∧ parts = []
  | .many p, cs, parts => (∀ c ∈ cs, p c = true) ∧ parts = []
  | .few p, cs, parts => (∀ c ∈ cs, p c = true) ∧ parts = []
  | .seq a b, cs, parts => ∃ start before rest behind,
      a.Fits start before ∧ b.Fits rest behind ∧ cs = start ++ rest ∧ parts = before ++ behind
  | .either a b, cs, parts => a.Fits cs parts ∨ b.Fits cs parts
  | .part name a, cs, parts => ∃ inner, a.Fits cs inner ∧ parts = (name, cs) :: inner

/-- Whether a pattern takes characters of a kind only. -/
def TakesOnly (q : Char → Prop) : Pattern ν → Prop
  | .text expected => ∀ c ∈ expected, q c
  | .one p => ∀ c, p c = true → q c
  | .many p => ∀ c, p c = true → q c
  | .few p => ∀ c, p c = true → q c
  | .seq a b => a.TakesOnly q ∧ b.TakesOnly q
  | .either a b => a.TakesOnly q ∧ b.TakesOnly q
  | .part _ a => a.TakesOnly q

theorem Fits.text (expected : List Char) : (text expected : Pattern ν).Fits expected [] :=
  ⟨rfl, rfl⟩

theorem Fits.seq {a b : Pattern ν} {cs ds : List Char} {before behind : List (ν × List Char)}
    (ha : a.Fits cs before) (hb : b.Fits ds behind) :
    (a.seq b).Fits (cs ++ ds) (before ++ behind) :=
  ⟨cs, before, ds, behind, ha, hb, rfl, rfl⟩

theorem Fits.part (name : ν) {a : Pattern ν} {cs : List Char} {inner : List (ν × List Char)}
    (ha : a.Fits cs inner) : (part name a).Fits cs ((name, cs) :: inner) :=
  ⟨inner, ha, rfl⟩

theorem fits_oneOrMore {p : Char → Bool} {cs : List Char} {parts : List (ν × List Char)} :
    (oneOrMore p).Fits cs parts ↔ (cs ≠ [] ∧ ∀ c ∈ cs, p c = true) ∧ parts = [] := by
  constructor
  · rintro ⟨_, _, run, _, ⟨c, hc, rfl, rfl⟩, ⟨hrun, rfl⟩, rfl, rfl⟩
    exact ⟨⟨List.cons_ne_nil c run, List.forall_mem_cons.mpr ⟨hc, hrun⟩⟩, rfl⟩
  · rintro ⟨⟨hne, hcs⟩, rfl⟩
    obtain ⟨c, run, rfl⟩ := List.exists_cons_of_ne_nil hne
    rw [List.forall_mem_cons] at hcs
    exact ⟨[c], [], run, [], ⟨c, hcs.1, rfl, rfl⟩, ⟨hcs.2, rfl⟩, rfl, rfl⟩

theorem mem_runs {p : Char → Bool} {cs run rest : List Char} :
    (run, rest) ∈ runs p cs ↔ (∀ c ∈ run, p c = true) ∧ cs = run ++ rest := by
  induction cs generalizing run with
  | nil =>
      rw [runs, List.mem_singleton, Prod.mk.injEq, List.nil_eq_append_iff]
      exact ⟨fun h ↦ ⟨h.1 ▸ nofun, h⟩, And.right⟩
  | cons c cs ih =>
      rw [runs, List.mem_cons, Prod.mk.injEq]
      cases run with
      | nil =>
          have hmore : ([], rest) ∉ if p c then (runs p cs).map fun (run, rest) ↦ (c :: run, rest)
              else [] := by
            split <;> simp
          rw [or_iff_left hmore, and_iff_right rfl, and_iff_right nofun, List.nil_append, eq_comm]
      | cons d run =>
          rw [List.forall_mem_cons, List.cons_append, List.cons.injEq, or_iff_right (by simp)]
          split
          · next hc =>
            rw [List.mem_map]
            constructor
            · rintro ⟨⟨run, rest⟩, hmem, ⟨⟩⟩
              obtain ⟨hrun, hcs⟩ := ih.mp hmem
              exact ⟨⟨hc, hrun⟩, rfl, hcs⟩
            · rintro ⟨⟨-, hrun⟩, rfl, hcs⟩
              exact ⟨(run, rest), ih.mpr ⟨hrun, hcs⟩, rfl⟩
          · next hc =>
            refine iff_of_false (List.not_mem_nil) ?_
            rintro ⟨⟨hd, -⟩, rfl, -⟩
            exact hc hd

section Attempts

variable {p : Char → Bool} {cs : List Char} {m : Match ν}

theorem mem_map_runs : (∃ r ∈ runs p cs, (⟨r.1, [], r.2⟩ : Match ν) = m) ↔
    ((∀ c ∈ m.taken, p c = true) ∧ m.parts = []) ∧ cs = m.taken ++ m.rest := by
  constructor
  · rintro ⟨⟨run, rest⟩, hmem, rfl⟩
    obtain ⟨hrun, hcs⟩ := mem_runs.mp hmem
    exact ⟨⟨hrun, rfl⟩, hcs⟩
  · obtain ⟨taken, parts, rest⟩ := m
    rintro ⟨⟨hrun, rfl⟩, hcs⟩
    exact ⟨(taken, rest), mem_runs.mpr ⟨hrun, hcs⟩, rfl⟩

theorem mem_attempts_text {expected : List Char} : m ∈ (text expected).attempts cs ↔
    (m.taken = expected ∧ m.parts = []) ∧ cs = m.taken ++ m.rest := by
  obtain ⟨taken, parts, rest⟩ := m
  rw [attempts]
  split
  · next h =>
    obtain ⟨more, rfl⟩ := List.isPrefixOf_iff_prefix.mp h
    rw [List.drop_left, List.mem_singleton, Match.mk.injEq]
    constructor
    · rintro ⟨rfl, rfl, rfl⟩
      exact ⟨⟨rfl, rfl⟩, rfl⟩
    · rintro ⟨⟨rfl, rfl⟩, hmore⟩
      exact ⟨rfl, rfl, (List.append_cancel_left hmore).symm⟩
  · next h =>
    refine iff_of_false List.not_mem_nil ?_
    rintro ⟨⟨rfl, -⟩, rfl⟩
    exact h (List.isPrefixOf_iff_prefix.mpr (List.prefix_append _ _))

theorem mem_attempts_one : m ∈ (one p).attempts cs ↔
    (∃ c, p c = true ∧ m.taken = [c] ∧ m.parts = []) ∧ cs = m.taken ++ m.rest := by
  obtain ⟨taken, parts, rest⟩ := m
  cases cs with
  | nil =>
      refine iff_of_false List.not_mem_nil ?_
      rintro ⟨⟨c, -, rfl, -⟩, ⟨⟩⟩
  | cons c cs =>
      rw [attempts]
      split
      · next hc =>
        rw [List.mem_singleton, Match.mk.injEq]
        constructor
        · rintro ⟨rfl, rfl, rfl⟩
          exact ⟨⟨c, hc, rfl, rfl⟩, rfl⟩
        · rintro ⟨⟨d, -, rfl, rfl⟩, hcs⟩
          obtain ⟨rfl, rfl⟩ := List.cons.inj hcs
          exact ⟨rfl, rfl, rfl⟩
      · next hc =>
        refine iff_of_false List.not_mem_nil ?_
        rintro ⟨⟨d, hd, rfl, -⟩, hcs⟩
        exact hc ((List.cons.inj hcs).1 ▸ hd)

end Attempts

/-- All that a pattern fits is tried, and nothing else. -/
theorem mem_attempts {a : Pattern ν} {cs : List Char} {m : Match ν} :
    m ∈ a.attempts cs ↔ a.Fits m.taken m.parts ∧ cs = m.taken ++ m.rest := by
  induction a generalizing cs m with
  | text expected => exact mem_attempts_text
  | one p => exact mem_attempts_one
  | many p =>
      rw [attempts, List.mem_map, Fits, ← mem_map_runs]
      simp only [List.mem_reverse]
  | few p => rw [attempts, List.mem_map, Fits, ← mem_map_runs]
  | seq a b iha ihb =>
      simp only [attempts, List.mem_flatMap, List.mem_map, iha, ihb, Fits]
      constructor
      · rintro ⟨m, ⟨ha, rfl⟩, n, ⟨hb, hrest⟩, rfl⟩
        exact ⟨⟨_, _, _, _, ha, hb, rfl, rfl⟩, by rw [hrest, Match.append, List.append_assoc]⟩
      · obtain ⟨taken, parts, rest⟩ := m
        rintro ⟨⟨start, before, more, behind, ha, hb, rfl, rfl⟩, rfl⟩
        exact ⟨⟨start, before, more ++ rest⟩, ⟨ha, List.append_assoc _ _ _⟩, ⟨more, behind, rest⟩,
          ⟨hb, rfl⟩, rfl⟩
  | either a b iha ihb => simp only [attempts, List.mem_append, iha, ihb, Fits, or_and_right]
  | part name a ih =>
      simp only [attempts, List.mem_map, ih, Fits]
      constructor
      · rintro ⟨m, ⟨ha, rfl⟩, rfl⟩
        exact ⟨⟨m.parts, ha, rfl⟩, rfl⟩
      · obtain ⟨taken, parts, rest⟩ := m
        dsimp only
        rintro ⟨⟨inner, ha, rfl⟩, rfl⟩
        exact ⟨⟨taken, inner, rest⟩, ⟨ha, rfl⟩, rfl⟩

theorem Fits.forall_mem {q : Char → Prop} {a : Pattern ν} {cs : List Char}
    {parts : List (ν × List Char)} (h : a.Fits cs parts) (ha : a.TakesOnly q) : ∀ c ∈ cs, q c := by
  induction a generalizing cs parts with
  | text expected =>
      obtain ⟨rfl, -⟩ := h
      exact ha
  | one p =>
      obtain ⟨c, hc, rfl, -⟩ := h
      exact List.forall_mem_singleton.mpr (ha c hc)
  | many p => exact fun c hc ↦ ha c (h.1 c hc)
  | few p => exact fun c hc ↦ ha c (h.1 c hc)
  | seq a b iha ihb =>
      obtain ⟨start, before, rest, behind, hstart, hrest, rfl, -⟩ := h
      exact List.forall_mem_append.mpr ⟨iha hstart ha.1, ihb hrest ha.2⟩
  | either a b iha ihb =>
      rcases h with h | h
      · exact iha h ha.1
      · exact ihb h ha.2
  | part name a ih =>
      obtain ⟨inner, h, -⟩ := h
      exact ih h ha

/-! ## What is found first -/

section First

variable {β : Type} (k : Match ν → Option β)

theorem findSome?_cons (m : Match ν) (ms : List (Match ν)) :
    (m :: ms).findSome? k = (k m).or (ms.findSome? k) := by
  rw [List.findSome?_cons]
  cases k m <;> rfl

/-- What can be found in one way only is found. -/
theorem findSome?_eq_of_unique {k : Match ν → Option β} {ms : List (Match ν)} {m : Match ν}
    (hm : m ∈ ms) (hunique : ∀ n ∈ ms, k n ≠ none → n = m) : ms.findSome? k = k m := by
  cases hfound : ms.findSome? k with
  | none => exact (List.findSome?_eq_none_iff.mp hfound m hm).symm
  | some y =>
      obtain ⟨n, hn, hy⟩ := List.exists_of_findSome?_eq_some hfound
      rw [← hunique n hn (by simp [hy]), hy]

/-- What is found with a pattern and one behind it is found with the second one behind what is tried
for the first one. -/
theorem findSome?_seq (a b : Pattern ν) (cs : List Char) :
    ((seq a b).attempts cs).findSome? k =
      (a.attempts cs).findSome? fun m ↦ (b.attempts m.rest).findSome? (k ∘ m.append) := by
  rw [attempts]
  induction a.attempts cs with
  | nil => rfl
  | cons m ms ih =>
      rw [List.flatMap_cons, List.findSome?_append, List.findSome?_map, ih, findSome?_cons]

theorem findSome?_optional (a : Pattern ν) (cs : List Char) :
    ((optional a).attempts cs).findSome? k = ((a.attempts cs).findSome? k).or (k ⟨[], [], cs⟩) := by
  rw [optional, attempts, List.findSome?_append]
  simp [attempts]

theorem findSome?_part (name : ν) (a : Pattern ν) (cs : List Char) :
    ((part name a).attempts cs).findSome? k =
      (a.attempts cs).findSome? fun m ↦ k { m with parts := (name, m.taken) :: m.parts } := by
  rw [attempts, List.findSome?_map]
  rfl

/-- A run of characters that is to be short is made longer only if nothing is found with it. -/
theorem findSome?_oneOrFew {p : Char → Bool} {c : Char} (hc : p c = true) (cs : List Char) :
    ((oneOrFew p).attempts (c :: cs)).findSome? k =
      (k ⟨[c], [], cs⟩).or (((oneOrFew p).attempts cs).findSome? fun m ↦
        k ⟨c :: m.taken, m.parts, m.rest⟩) := by
  have hfew : ((oneOrFew p).attempts (c :: cs)).findSome? k =
      ((few p).attempts cs).findSome? fun m ↦ k ⟨c :: m.taken, m.parts, m.rest⟩ := by
    rw [oneOrFew, findSome?_seq, attempts, if_pos hc, findSome?_cons, List.findSome?_nil,
      Option.or_none]
    rfl
  rw [hfew, attempts_few, findSome?_cons]

end First

end Pattern

end PipedCompiler.Text
