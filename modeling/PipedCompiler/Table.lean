/-!
# Tables

Finite maps from strings, kept as lists of entries with one entry per key.
-/

namespace PipedCompiler

/-- A finite map from strings. -/
structure Table (α : Type) where
  /-- The entries, each key at most once, the one written last in front. -/
  entries : List (String × α)

namespace Table

variable {α : Type}

/-- The table without entries. -/
def empty : Table α := ⟨[]⟩

instance : EmptyCollection (Table α) := ⟨empty⟩

instance : Inhabited (Table α) := ⟨empty⟩

/-- The value at a key. -/
def get? (t : Table α) (key : String) : Option α :=
  t.entries.lookup key

/-- Whether the key has a value. -/
def contains (t : Table α) (key : String) : Bool :=
  (t.get? key).isSome

/-- Forgets the value at a key. -/
def erase (t : Table α) (key : String) : Table α :=
  ⟨t.entries.filter fun entry => key != entry.1⟩

/-- Sets the value at a key. -/
def insert (t : Table α) (key : String) (value : α) : Table α :=
  ⟨(key, value) :: (t.erase key).entries⟩

/-- How many keys have a value. -/
def size (t : Table α) : Nat :=
  t.entries.length

/-- The table of a list of entries, a later one replacing an earlier one of the same key. -/
def ofList (entries : List (String × α)) : Table α :=
  entries.foldl (fun t entry => t.insert entry.1 entry.2) empty

@[simp] theorem get?_empty (key : String) : (empty : Table α).get? key = none := rfl

theorem get?_erase (t : Table α) (key other : String) :
    (t.erase key).get? other = if key = other then none else t.get? other := by
  obtain ⟨entries⟩ := t
  simp only [erase, get?]
  induction entries with
  | nil => simp
  | cons entry entries ih =>
    obtain ⟨k, v⟩ := entry
    by_cases hk : key = k
    · subst hk
      rw [List.filter_cons, if_neg (by simp), ih, List.lookup_cons]
      by_cases ho : other = key
      · simp [ho]
      · have : (other == key) = false := by simpa using ho
        simp [this]
    · have hfilter : (key != k) = true := by simpa using hk
      rw [List.filter_cons, if_pos hfilter, List.lookup_cons, List.lookup_cons, ih]
      by_cases ho : other = k
      · subst ho
        simp [hk]
      · have : (other == k) = false := by simpa using ho
        simp [this]

@[simp] theorem get?_insert (t : Table α) (key other : String) (value : α) :
    (t.insert key value).get? other = if key = other then some value else t.get? other := by
  have h : (t.insert key value).get? other
      = if other == key then some value else (t.erase key).get? other := by
    simp only [insert, get?, List.lookup_cons]
    cases other == key <;> rfl
  rw [h, get?_erase]
  by_cases hk : key = other
  · simp [hk]
  · have : ¬ other = key := fun e => hk e.symm
    simp [hk, this]

/-- A value that is found is that of an entry. -/
theorem mem_entries_of_get? {t : Table α} {key : String} {value : α}
    (h : t.get? key = some value) : (key, value) ∈ t.entries := by
  obtain ⟨before, after, hentries, -⟩ := List.lookup_eq_some_iff.mp h
  rw [hentries]
  simp

theorem contains_eq_false_iff {t : Table α} {key : String} :
    t.contains key = false ↔ t.get? key = none := by
  rw [contains, Option.isSome_eq_false_iff, Option.isNone_iff_eq_none]

/-- There is nothing to forget at a key without a value. -/
theorem erase_of_get?_eq_none {t : Table α} {key : String} (h : t.get? key = none) :
    t.erase key = t := by
  rw [get?, List.lookup_eq_none_iff] at h
  rw [erase, List.filter_eq_self.mpr h]

/-- The value written last counts. -/
@[simp] theorem insert_insert (t : Table α) (key : String) (a b : α) :
    (t.insert key a).insert key b = t.insert key b := by
  simp [insert, erase, List.filter_filter]

@[simp] theorem contains_insert (t : Table α) (key other : String) (value : α) :
    (t.insert key value).contains other = (decide (key = other) || t.contains other) := by
  rw [contains, contains, get?_insert]
  by_cases hk : key = other
  · simp [hk]
  · simp [hk]

end Table

end PipedCompiler
