import Mathlib.Data.List.DropRight
import Mathlib.Data.List.Induction
import Mathlib.Data.Prod.Lex
import PipedCompiler.Diagnostic.Basic
import PipedCompiler.Proofs.Text.Boundary

/-!
# Positions of boundaries

On a boundary the line counts the line feeds before it, and the column counts the characters since
the last of them, as far as 32 bits go.  So what stands further behind has a later position, and no
two boundaries share one, unless there are so many bytes before them that the numbers start again
from zero.
-/

namespace PipedCompiler.Text

/-! ## Counts -/

namespace Counts

/-- The counts as they are compared: by the lines first, then by the columns. -/
def key (n : Counts) : Nat ×ₗ Nat := toLex (n.lines, n.columns)

/-- The counts behind a character. -/
def next (n : Counts) (c : Char) : Counts :=
  if c = '\n' then ⟨n.lines + 1, 0⟩ else ⟨n.lines, n.columns + 1⟩

@[simp] theorem next_lineFeed (n : Counts) : n.next '\n' = ⟨n.lines + 1, 0⟩ := rfl

theorem next_of_ne {c : Char} (h : c ≠ '\n') (n : Counts) : n.next c = ⟨n.lines, n.columns + 1⟩ :=
  if_neg h

theorem key_lt_next (n : Counts) (c : Char) : n.key < (n.next c).key := by
  rw [key, key, Prod.Lex.toLex_lt_toLex]
  by_cases hc : c = '\n'
  · subst hc
    exact .inl (Nat.lt_succ_self _)
  · rw [next_of_ne hc]
    exact .inr ⟨rfl, Nat.lt_succ_self _⟩

theorem key_le_foldl_next (n : Counts) (cs : List Char) : n.key ≤ (cs.foldl next n).key := by
  induction cs generalizing n with
  | nil => exact le_rfl
  | cons c cs ih => exact (n.key_lt_next c).le.trans (ih _)

theorem key_lt_foldl_next (n : Counts) {cs : List Char} (h : cs ≠ []) :
    n.key < (cs.foldl next n).key := by
  obtain ⟨c, cs, rfl⟩ := List.exists_cons_of_ne_nil h
  exact (n.key_lt_next c).trans_le (key_le_foldl_next _ cs)

/-- Going on by at least the bytes of a part of the text leads over its characters. -/
theorem advance_append {before : List Char} {left : Nat} (h : byteLength before ≤ left)
    (after : List Char) (n : Counts) (past : Nat) :
    ∃ past', advance (before ++ after) left n.lines n.columns past =
      advance after (left - byteLength before) (before.foldl next n).lines
        (before.foldl next n).columns past' := by
  induction before generalizing left n past with
  | nil => exact ⟨past, rfl⟩
  | cons c before ih =>
      have hpos := c.utf8Size_pos
      rw [byteLength_cons] at h ⊢
      rw [List.cons_append, advance, if_neg (by omega), if_neg (by omega), List.foldl_cons,
        ← Nat.sub_sub]
      by_cases hc : c = '\n'
      · subst hc
        rw [if_pos rfl]
        exact ih (by omega) (n.next '\n') 0
      · rw [if_neg hc, next_of_ne hc]
        exact ih (by omega) ⟨n.lines, n.columns + 1⟩ _

end Counts

/-- The counts of a boundary are reached over the characters before it. -/
theorem counts_eq_foldl (before after : List Char) :
    counts (before ++ after) (byteLength before) = before.foldl Counts.next ⟨0, 0⟩ := by
  obtain ⟨past, h⟩ := Counts.advance_append (Nat.le_refl (byteLength before)) after ⟨0, 0⟩ 0
  rw [counts, h, Nat.sub_self]
  cases after <;> rfl

theorem foldl_next_start (cs : List Char) :
    cs.foldl Counts.next ⟨0, 0⟩ = ⟨cs.count '\n', (cs.rtakeWhile (· ≠ '\n')).length⟩ := by
  induction cs using List.reverseRecOn with
  | nil => rfl
  | append_singleton cs c ih =>
      rw [List.foldl_append, ih, List.foldl_cons, List.foldl_nil, List.rtakeWhile_concat]
      by_cases hc : c = '\n'
      · subst hc
        simp
      · simp [Counts.next_of_ne hc, hc]

/-- On a boundary there are as many lines as line feeds before it, and as many columns as characters
behind the last of them. -/
theorem counts_boundary (before after : List Char) :
    counts (before ++ after) (byteLength before) =
      ⟨before.count '\n', (before.rtakeWhile (· ≠ '\n')).length⟩ := by
  rw [counts_eq_foldl, foldl_next_start]

/-- There are no more characters than bytes. -/
theorem length_le_byteLength (cs : List Char) : cs.length ≤ byteLength cs := by
  induction cs with
  | nil => exact le_rfl
  | cons c cs ih =>
      have hpos := c.utf8Size_pos
      rw [List.length_cons, byteLength_cons]
      omega

section Order

variable {cs : List Char} {a b : Nat}

theorem IsBoundary.le (h : IsBoundary cs a) : a ≤ byteLength cs := by
  obtain ⟨before, after, rfl, rfl⟩ := h
  rw [byteLength_append]
  omega

theorem IsBoundary.lines_le (h : IsBoundary cs a) : (counts cs a).lines ≤ a := by
  obtain ⟨before, after, rfl, rfl⟩ := h
  rw [counts_boundary]
  exact before.count_le_length.trans (length_le_byteLength before)

theorem IsBoundary.columns_le (h : IsBoundary cs a) : (counts cs a).columns ≤ a := by
  obtain ⟨before, after, rfl, rfl⟩ := h
  rw [counts_boundary]
  exact (List.rtakeWhile_suffix _ before).length_le.trans (length_le_byteLength before)

/-- Of two boundaries, the one further behind has the later counts. -/
theorem key_counts_lt (ha : IsBoundary cs a) (hb : IsBoundary cs b) (h : a < b) :
    (counts cs a).key < (counts cs b).key := by
  obtain ⟨before, after, rfl, rfl⟩ := ha
  obtain ⟨before', after', happend, rfl⟩ := hb
  rcases List.append_eq_append_iff.mp happend with ⟨more, rfl, rfl⟩ | ⟨more, rfl, rfl⟩
  · have hmore : more ≠ [] := by
      rintro rfl
      rw [List.append_nil] at h
      exact lt_irrefl _ h
    rw [← List.append_assoc, counts_eq_foldl (before ++ more), List.append_assoc,
      counts_eq_foldl, List.foldl_append]
    exact Counts.key_lt_foldl_next _ hmore
  · rw [byteLength_append] at h
    omega

end Order

/-! ## Positions -/

/-- Past the end of a text everything is at its end. -/
theorem position_of_le {cs : List Char} {offset : Nat} (h : byteLength cs ≤ offset) :
    position cs offset = position cs (byteLength cs) := by
  obtain ⟨past, hoffset⟩ := Counts.advance_append h [] ⟨0, 0⟩ 0
  have hend := counts_eq_foldl cs []
  rw [List.append_nil] at hoffset hend
  rw [position, position, hend, counts, hoffset, Counts.advance]

namespace Position

/-- The position as it is compared: by the line first, then by the column. -/
def key (p : Position) : Nat ×ₗ Nat := toLex ((p.line : Nat), (p.column : Nat))

end Position

theorem toNat_succ (n : Nat) : (n.toUInt32 + 1).toNat = (1 + n) % UInt32.size := by
  rw [UInt32.toNat_add, Nat.toUInt32_eq, UInt32.toNat_ofNat', Nat.add_comm 1 n]
  exact Nat.mod_add_mod n UInt32.size 1

/-- On a boundary the line is one more than the line feeds before it, and the column one more than
the characters behind the last of them, up to multiples of the numbers that 32 bits can tell. -/
theorem position_boundary (before after : List Char) :
    let p := position (before ++ after) (byteLength before)
    p.line.toNat = (1 + before.count '\n') % UInt32.size ∧
      p.column.toNat = (1 + (before.rtakeWhile (· ≠ '\n')).length) % UInt32.size := by
  rw [position, counts_boundary]
  exact ⟨toNat_succ _, toNat_succ _⟩

section Order

variable {cs : List Char} {a b : Nat}

/-- Where fewer bytes come before than 32 bits can count, the counts are shown as they are. -/
theorem toNat_position (ha : IsBoundary cs a) (hsize : a + 1 < UInt32.size) :
    (position cs a).line.toNat = 1 + (counts cs a).lines ∧
      (position cs a).column.toNat = 1 + (counts cs a).columns := by
  have hlines := ha.lines_le
  have hcolumns := ha.columns_le
  rw [position, Counts.position, toNat_succ, toNat_succ]
  exact ⟨Nat.mod_eq_of_lt (by omega), Nat.mod_eq_of_lt (by omega)⟩

theorem key_position (ha : IsBoundary cs a) (hsize : a + 1 < UInt32.size) :
    (position cs a).key = toLex (1 + (counts cs a).lines, 1 + (counts cs a).columns) := by
  obtain ⟨hline, hcolumn⟩ := toNat_position ha hsize
  rw [Position.key, hline, hcolumn]

/-- Of two boundaries, the one further behind has the later position. -/
theorem key_position_lt (ha : IsBoundary cs a) (hb : IsBoundary cs b) (hsize : b + 1 < UInt32.size)
    (h : a < b) : (position cs a).key < (position cs b).key := by
  have hcounts := key_counts_lt ha hb h
  rw [Counts.key, Counts.key, Prod.Lex.toLex_lt_toLex] at hcounts
  rw [key_position ha (by omega), key_position hb hsize, Prod.Lex.toLex_lt_toLex]
  rcases hcounts with hlt | ⟨heq, hlt⟩
  · exact .inl (Nat.add_lt_add_left hlt 1)
  · exact .inr ⟨congrArg (1 + ·) heq, Nat.add_lt_add_left hlt 1⟩

theorem key_position_le (ha : IsBoundary cs a) (hb : IsBoundary cs b)
    (hsize : b + 1 < UInt32.size) (h : a ≤ b) : (position cs a).key ≤ (position cs b).key := by
  rcases Nat.lt_or_eq_of_le h with hlt | rfl
  · exact (key_position_lt ha hb hsize hlt).le
  · exact le_rfl

/-- No two boundaries share a position. -/
theorem position_ne (ha : IsBoundary cs a) (hb : IsBoundary cs b) (hasize : a + 1 < UInt32.size)
    (hbsize : b + 1 < UInt32.size) (h : a ≠ b) : position cs a ≠ position cs b := by
  intro heq
  have hkey := congrArg Position.key heq
  rcases Nat.lt_or_gt_of_ne h with hlt | hlt
  · exact (key_position_lt ha hb hbsize hlt).ne hkey
  · exact (key_position_lt hb ha hasize hlt).ne' hkey

end Order

end PipedCompiler.Text

namespace PipedCompiler

open PipedCompiler.Text

/-- The line and column that a diagnostic shows. -/
def Diagnostic.position? (d : Diagnostic) : Option Position :=
  match d.line, d.column with
  | some line, some column => some ⟨line, column⟩
  | _, _ => none

@[simp] theorem Diagnostic.position?_place (d : Diagnostic) (f : SourceFile) (offset : Nat) :
    (d.place f offset).position? = some (position f.chars offset) := rfl

end PipedCompiler
