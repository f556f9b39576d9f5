import PipedCompiler.Text.Position

/-!
# Carriage returns

Lines may end in a line feed or in a carriage return and a line feed.  `withReturns` makes the one
text of the other.  Its places are at other byte offsets, which `placeWithReturns` gives, but at the
same lines and columns: the added characters stand at the ends of their lines.
-/

namespace PipedCompiler.Text

/-! ## Texts -/

/-- The text with a carriage return before every line feed. -/
def withReturns (cs : List Char) : List Char :=
  cs.flatMap fun c ↦ if c = '\n' then ['\r', '\n'] else [c]

@[simp] theorem withReturns_nil : withReturns [] = [] := rfl

@[simp] theorem withReturns_lineFeed (cs : List Char) :
    withReturns ('\n' :: cs) = '\r' :: '\n' :: withReturns cs := rfl

theorem withReturns_cons {c : Char} (hc : c ≠ '\n') (cs : List Char) :
    withReturns (c :: cs) = c :: withReturns cs := by
  simp [withReturns, hc]

@[simp] theorem withReturns_append (cs ds : List Char) :
    withReturns (cs ++ ds) = withReturns cs ++ withReturns ds :=
  List.flatMap_append

/-- A text of one line stays as it is. -/
theorem withReturns_of_notMem {cs : List Char} (h : '\n' ∉ cs) : withReturns cs = cs := by
  induction cs with
  | nil => rfl
  | cons c cs ih =>
      rw [List.mem_cons, not_or] at h
      rw [withReturns_cons (Ne.symm h.1), ih h.2]

theorem lineFeed_notMem_takeWhile {p : Char → Bool} (hfeed : p '\n' = false) (cs : List Char) :
    '\n' ∉ cs.takeWhile p := by
  intro hmem
  have hp := List.all_takeWhile (p := p) (l := cs)
  rw [List.all_eq_true] at hp
  rw [hp _ hmem] at hfeed
  cases hfeed

theorem lineFeed_mem_withReturns {cs : List Char} : '\n' ∈ withReturns cs ↔ '\n' ∈ cs := by
  induction cs with
  | nil => exact Iff.rfl
  | cons c cs ih =>
      by_cases hc : c = '\n'
      · subst hc
        simp
      · rw [withReturns_cons hc, List.mem_cons, List.mem_cons, ih]

theorem contains_withReturns (cs : List Char) :
    (withReturns cs).contains '\n' = cs.contains '\n' := by
  rw [Bool.eq_iff_iff, List.contains_iff_mem, List.contains_iff_mem, lineFeed_mem_withReturns]

/-- The next character is the same, but for a line break. -/
theorem head?_withReturns {d : Char} (hreturn : d ≠ '\r') (hfeed : d ≠ '\n') (cs : List Char) :
    ((withReturns cs).head? == some d) = (cs.head? == some d) := by
  cases cs with
  | nil => rfl
  | cons c cs =>
      by_cases hc : c = '\n'
      · subst hc
        rw [withReturns_lineFeed, List.head?_cons, List.head?_cons]
        exact (beq_eq_false_iff_ne.mpr fun h ↦ hreturn (Option.some.inj h).symm).trans
          (beq_eq_false_iff_ne.mpr fun h ↦ hfeed (Option.some.inj h).symm).symm
      · rw [withReturns_cons hc]
        rfl

/-- A run of characters that stops at white space stops at the same one. -/
theorem takeWhile_withReturns {p : Char → Bool} (hreturn : p '\r' = false)
    (hfeed : p '\n' = false) (cs : List Char) :
    (withReturns cs).takeWhile p = cs.takeWhile p := by
  induction cs with
  | nil => rfl
  | cons c cs ih =>
      by_cases hc : c = '\n'
      · subst hc
        simp [hreturn, hfeed]
      · rw [withReturns_cons hc, List.takeWhile_cons, List.takeWhile_cons, ih]

theorem dropWhile_withReturns {p : Char → Bool} (hreturn : p '\r' = false)
    (hfeed : p '\n' = false) (cs : List Char) :
    (withReturns cs).dropWhile p = withReturns (cs.dropWhile p) := by
  induction cs with
  | nil => rfl
  | cons c cs ih =>
      by_cases hc : c = '\n'
      · subst hc
        simp [hreturn, hfeed]
      · rw [withReturns_cons hc, List.dropWhile_cons, List.dropWhile_cons, ih]
        split
        · rfl
        · rw [withReturns_cons hc]

/-! ## Places -/

/-- Where a byte offset of a text is when there is a carriage return before every line feed. -/
def placeWithReturns : List Char → Nat → Nat
  | [], offset => offset
  | c :: cs, offset =>
    if offset < c.utf8Size then offset
    else byteLength (withReturns [c]) + placeWithReturns cs (offset - c.utf8Size)

/-- The end of a part of the text is the end of the same part. -/
theorem placeWithReturns_byteLength (cs ds : List Char) :
    placeWithReturns (cs ++ ds) (byteLength cs) = byteLength (withReturns cs) := by
  induction cs with
  | nil =>
      cases ds with
      | nil => rfl
      | cons d ds => exact if_pos d.utf8Size_pos
  | cons c cs ih =>
      have hlength : byteLength (c :: cs) = c.utf8Size + byteLength cs := rfl
      rw [List.cons_append, placeWithReturns, hlength, if_neg (by omega), Nat.add_sub_cancel_left,
        ih, ← byteLength_append, ← withReturns_append]
      rfl

/-- Places stay in order. -/
theorem placeWithReturns_lt (cs : List Char) {a b : Nat} (h : a < b) :
    placeWithReturns cs a < placeWithReturns cs b := by
  induction cs generalizing a b with
  | nil => exact h
  | cons c cs ih =>
      have hsize : c.utf8Size ≤ byteLength (withReturns [c]) := by
        by_cases hc : c = '\n'
        · subst hc
          decide
        · rw [withReturns_cons hc]
          exact Nat.le_add_right _ _
      rw [placeWithReturns, placeWithReturns]
      split
      · split
        · exact h
        · omega
      · rw [if_neg (by omega)]
        have hrest := ih (show a - c.utf8Size < b - c.utf8Size by omega)
        omega

theorem placeWithReturns_le_iff (cs : List Char) (a b : Nat) :
    placeWithReturns cs a ≤ placeWithReturns cs b ↔ a ≤ b := by
  constructor
  · intro h
    rcases Nat.lt_or_ge b a with hlt | hle
    · have := placeWithReturns_lt cs hlt
      omega
    · exact hle
  · intro h
    rcases Nat.lt_or_eq_of_le h with hlt | rfl
    · exact Nat.le_of_lt (placeWithReturns_lt cs hlt)
    · exact Nat.le_refl _

/-- Going on by some bytes passes the same lines and characters. -/
theorem advance_withReturns (cs : List Char) (left lines columns past : Nat) :
    Counts.advance (withReturns cs) (placeWithReturns cs left) lines columns past =
      Counts.advance cs left lines columns past := by
  induction cs generalizing left lines columns past with
  | nil => rfl
  | cons c cs ih =>
      have hpos := c.utf8Size_pos
      rw [placeWithReturns]
      by_cases hc : c = '\n'
      · -- both characters of the line break are passed at once, or none of them
        subst hc
        have hsize : Char.utf8Size '\n' = 1 := by decide
        have hreturn : Char.utf8Size '\r' = 1 := by decide
        have hlength : byteLength (withReturns ['\n']) = 2 := by decide
        rw [withReturns_lineFeed, hsize, hlength]
        by_cases hleft : left = 0
        · subst hleft
          simp [Counts.advance]
        · rw [if_neg (by omega), Counts.advance, hreturn, if_neg (by omega), if_neg (by omega),
            if_neg (by decide), Counts.advance, hsize, if_neg (by omega), if_neg (by omega),
            if_pos rfl, Counts.advance, hsize, if_neg hleft, if_neg (by omega), if_pos rfl,
            ← ih, show 2 + placeWithReturns cs (left - 1) - 1 - 1 =
              placeWithReturns cs (left - 1) by omega]
      · have hlength : byteLength (withReturns [c]) = c.utf8Size := by
          rw [withReturns_cons hc]
          rfl
        rw [withReturns_cons hc, hlength]
        split
        · next hlt => simp [Counts.advance, hlt]
        · next hle =>
          rw [Counts.advance, if_neg (by omega), if_neg (by omega), if_neg hc,
            Counts.advance, if_neg (by omega), if_neg hle, if_neg hc, Nat.add_sub_cancel_left, ih]

/-- No place is at another line or column. -/
theorem position_withReturns (cs : List Char) (offset : Nat) :
    position (withReturns cs) (placeWithReturns cs offset) = position cs offset :=
  congrArg Counts.position (advance_withReturns cs offset 0 0 0)

end PipedCompiler.Text
