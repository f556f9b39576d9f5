import PipedCompiler.Bridge.Request

/-!
# Bytes in lines

Bytes are cut behind every line feed, and what is behind the last of them is a line too.  A cut
depends on nothing that comes later, so lines can be taken one after the other:
`lines_induction` is induction along them.
-/

namespace PipedCompiler.Bridge

open PipedCompiler.Text

/-- The lines of some bytes, each with the line feed that ends it; the last one may also just
end. -/
def cutLines : Bytes → List Bytes
  | [] => []
  | b :: bs =>
    if b = lineFeed then [b] :: cutLines bs
    else
      match cutLines bs with
      | [] => [[b]]
      | line :: lines => (b :: line) :: lines

variable {line bs : Bytes}

@[simp] theorem cutLines_nil : cutLines [] = [] := rfl

/-- A line ends at the first line feed. -/
theorem cutLines_append_lineFeed (h : lineFeed ∉ line) (rest : Bytes) :
    cutLines (line ++ lineFeed :: rest) = (line ++ [lineFeed]) :: cutLines rest := by
  induction line with
  | nil => simp [cutLines]
  | cons b line ih =>
      rw [List.mem_cons, not_or] at h
      simp [cutLines, Ne.symm h.1, ih h.2]

/-- Bytes without a line feed are one line. -/
theorem cutLines_of_notMem (h : lineFeed ∉ line) (hne : line ≠ []) : cutLines line = [line] := by
  induction line with
  | nil => exact absurd rfl hne
  | cons b line ih =>
      rw [List.mem_cons, not_or] at h
      cases line with
      | nil => simp [cutLines, Ne.symm h.1]
      | cons c line => rw [cutLines, if_neg (Ne.symm h.1), ih h.2 nofun]

/-- Induction along the lines of some bytes. -/
theorem lines_induction {motive : Bytes → Prop} (nil : motive [])
    (last : ∀ line, line ≠ [] → lineFeed ∉ line → motive line)
    (more : ∀ line rest, lineFeed ∉ line → motive rest → motive (line ++ lineFeed :: rest))
    (bs : Bytes) : motive bs := by
  induction hlength : bs.length using Nat.strongRecOn generalizing bs with
  | ind n ih =>
      by_cases hfeed : lineFeed ∈ bs
      · obtain ⟨line, rest, rfl, hline⟩ := List.eq_append_cons_of_mem hfeed
        have hshorter : rest.length < n := by
          rw [← hlength, List.length_append, List.length_cons]
          omega
        exact more line rest hline (ih rest.length hshorter rest rfl)
      · by_cases hne : bs = []
        · exact hne ▸ nil
        · exact last bs hne hfeed

/-- Nothing is lost. -/
@[simp] theorem flatten_cutLines (bs : Bytes) : (cutLines bs).flatten = bs := by
  induction bs using lines_induction with
  | nil => rfl
  | last line hne hline => rw [cutLines_of_notMem hline hne, List.flatten_singleton]
  | more line rest hline ih =>
      rw [cutLines_append_lineFeed hline, List.flatten_cons, ih, List.append_assoc]
      rfl

/-- Whether bytes are one line with a line feed at its end. -/
def IsEnded (line : Bytes) : Prop :=
  ∃ start, lineFeed ∉ start ∧ line = start ++ [lineFeed]

/-- Only the last line may just end. -/
theorem isEnded_of_cutLines {front more : List Bytes} (h : cutLines bs = front ++ line :: more) :
    ∀ l ∈ front, IsEnded l := by
  induction bs using lines_induction generalizing front with
  | nil => simp at h
  | last only hne honly =>
      rw [cutLines_of_notMem honly hne] at h
      cases front with
      | nil => nofun
      | cons first front => simp at h
  | more start rest hstart ih =>
      rw [cutLines_append_lineFeed hstart] at h
      cases front with
      | nil => nofun
      | cons first front =>
          obtain ⟨rfl, hrest⟩ := List.cons.inj h
          exact List.forall_mem_cons.mpr ⟨⟨start, hstart, rfl⟩, ih hrest⟩

/-- Lines with line feeds at their ends are got back, whatever comes behind them. -/
theorem cutLines_flatten_append {lines : List Bytes} (h : ∀ l ∈ lines, IsEnded l)
    (behind : Bytes) : cutLines (lines.flatten ++ behind) = lines ++ cutLines behind := by
  induction lines with
  | nil => rfl
  | cons line lines ih =>
      obtain ⟨⟨start, hstart, rfl⟩, hlines⟩ := List.forall_mem_cons.mp h
      rw [List.flatten_cons, List.append_assoc, List.append_assoc, List.singleton_append,
        cutLines_append_lineFeed hstart, ih hlines]
      rfl

/-- A line feed, a line of two bytes, and a byte that no line feed follows. -/
example : cutLines [0x0a, 0x20, 0x0a, 0x20] = [[0x0a], [0x20, 0x0a], [0x20]] := by decide

end PipedCompiler.Bridge
