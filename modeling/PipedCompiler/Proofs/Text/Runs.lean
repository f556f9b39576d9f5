import Mathlib.Data.List.DropRight
import PipedCompiler.Text.Blank
import PipedCompiler.Text.Lines

/-!
# Runs of characters

Where a run of characters stops, what trimming leaves alone, and how lines that have been put
together are cut again.
-/

namespace PipedCompiler.Text

/-- What holds of every character of a text is decided by running through the text, and not through
all the characters that there are. -/
instance (priority := high) decidableForallMem (p : Char → Prop) [DecidablePred p]
    (cs : List Char) : Decidable (∀ c ∈ cs, p c) :=
  List.decidableBAll p cs

section Runs

variable {p : Char → Bool} {cs rest : List Char}

/-- What is taken from a text stops where it has to. -/
theorem takeWhile_append_of_head (hcs : ∀ d ∈ cs, p d = true)
    (hrest : ∀ d ∈ rest.head?, p d = false) : (cs ++ rest).takeWhile p = cs := by
  rw [List.takeWhile_append_of_pos hcs]
  cases rest with
  | nil => simp
  | cons d ds => simp [hrest d rfl]

theorem dropWhile_append_of_head (hcs : ∀ d ∈ cs, p d = true)
    (hrest : ∀ d ∈ rest.head?, p d = false) : (cs ++ rest).dropWhile p = rest := by
  rw [List.dropWhile_append_of_pos hcs]
  cases rest with
  | nil => rfl
  | cons d ds => simp [hrest d rfl]

/-- What is taken from a text stops at a character that stops it, whatever comes behind. -/
theorem takeWhile_append_cons {d : Char} (hd : p d = false) (cs rest : List Char) :
    (cs ++ d :: rest).takeWhile p = cs.takeWhile p := by
  induction cs with
  | nil => simp [hd]
  | cons c cs ih => simp [List.takeWhile_cons, ih]

theorem dropWhile_append_cons {d : Char} (hd : p d = false) (cs rest : List Char) :
    (cs ++ d :: rest).dropWhile p = cs.dropWhile p ++ d :: rest := by
  induction cs with
  | nil => simp [hd]
  | cons c cs ih =>
      rw [List.cons_append, List.dropWhile_cons, List.dropWhile_cons, ih]
      split <;> rfl

end Runs

/-- Whether characters end in one that is not white space. -/
def EndsSolid (cs : List Char) : Prop :=
  ∃ c ∈ cs.getLast?, isBlank c = false

theorem EndsSolid.append (before : List Char) {cs : List Char} (h : EndsSolid cs) :
    EndsSolid (before ++ cs) := by
  obtain ⟨c, hc, hsolid⟩ := h
  obtain ⟨cs, rfl⟩ := List.getLast?_eq_some_iff.mp hc
  exact ⟨c, by simp, hsolid⟩

theorem trimRight_of_endsSolid {cs : List Char} (h : EndsSolid cs) : trimRight cs = cs := by
  obtain ⟨c, hc, hsolid⟩ := h
  obtain ⟨before, rfl⟩ := List.getLast?_eq_some_iff.mp hc
  simp [trimRight, hsolid]

theorem EndsSolid.of_append {before cs : List Char} (h : EndsSolid (before ++ cs)) (hcs : cs ≠ []) :
    EndsSolid cs := by
  rwa [EndsSolid, List.getLast?_append_of_ne_nil before hcs] at h

theorem trimRight_eq_rdropWhile (cs : List Char) : trimRight cs = cs.rdropWhile isBlank :=
  rfl

theorem trimRight_trimRight (cs : List Char) : trimRight (trimRight cs) = trimRight cs := by
  simp only [trimRight_eq_rdropWhile, List.rdropWhile_idempotent]

theorem endsSolid_trimRight {cs : List Char} (h : trimRight cs ≠ []) :
    EndsSolid (trimRight cs) := by
  rw [trimRight_eq_rdropWhile] at h ⊢
  exact ⟨_, List.getLast?_eq_some_getLast h, by simpa using List.rdropWhile_last_not isBlank cs h⟩

/-- A line ends at the first line feed behind it. -/
theorem linesFrom_append {start cs rest : List Char} (hcs : '\n' ∉ cs)
    (h : EndsSolid (start.reverse ++ cs)) :
    linesFrom start (cs ++ '\n' :: rest) = (start.reverse ++ cs) :: lines rest := by
  induction cs generalizing start with
  | nil =>
      rw [List.append_nil] at h ⊢
      have hreturn : ∀ line, start ≠ '\r' :: line := by
        rintro line rfl
        obtain ⟨c, hc, hsolid⟩ := h
        obtain rfl : '\r' = c := by simpa using hc
        exact absurd hsolid (by decide)
      rw [List.nil_append, linesFrom, lines]
      exact hreturn
  | cons c cs ih =>
      rw [List.mem_cons, not_or] at hcs
      have hmore : start.reverse ++ c :: cs = (c :: start).reverse ++ cs := by simp
      rw [List.cons_append, linesFrom.eq_4 _ _ _ fun hc ↦ hcs.1 hc.symm, ih hcs.2 (hmore ▸ h),
        hmore]

/-- Lines that do not end in white space are got back where each has been ended by a line feed. -/
theorem lines_flatMap {ts : List (List Char)} (h : ∀ t ∈ ts, '\n' ∉ t ∧ EndsSolid t) :
    lines (ts.flatMap (· ++ ['\n'])) = ts := by
  induction ts with
  | nil => rfl
  | cons t ts ih =>
      rw [List.forall_mem_cons] at h
      have hline : linesFrom [] (t ++ '\n' :: ts.flatMap (· ++ ['\n'])) =
        t :: lines (ts.flatMap (· ++ ['\n'])) := linesFrom_append h.1.1 h.1.2
      rw [List.flatMap_cons, List.append_assoc, List.singleton_append, lines, hline, ih h.2]

end PipedCompiler.Text
