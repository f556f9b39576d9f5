import PipedCompiler.Text.Position

/-!
# Character boundaries

A byte offset lies on a boundary if a text can be cut there without cutting a character.
-/

namespace PipedCompiler.Text

theorem byteLength_cons (c : Char) (cs : List Char) :
    byteLength (c :: cs) = c.utf8Size + byteLength cs := rfl

/-- Whether a byte offset lies between two characters of a text, or at one of its ends. -/
def IsBoundary (cs : List Char) (offset : Nat) : Prop :=
  ∃ before after, cs = before ++ after ∧ byteLength before = offset

theorem isBoundary_byteLength (before after : List Char) :
    IsBoundary (before ++ after) (byteLength before) :=
  ⟨before, after, rfl, rfl⟩

/-- No boundary lies inside a character. -/
theorem not_isBoundary_inside {before after : List Char} {c : Char} {offset : Nat}
    (hlow : byteLength before < offset) (hhigh : offset < byteLength before + c.utf8Size) :
    ¬ IsBoundary (before ++ c :: after) offset := by
  rintro ⟨before', after', happend, rfl⟩
  rcases List.append_eq_append_iff.mp happend with ⟨more, rfl, hmore⟩ | ⟨more, rfl, -⟩
  · cases more with
    | nil => simp at hlow
    | cons d more =>
        obtain ⟨rfl, -⟩ := List.cons.inj hmore
        rw [byteLength_append, byteLength_cons] at hhigh
        omega
  · rw [byteLength_append] at hlow
    omega

end PipedCompiler.Text
