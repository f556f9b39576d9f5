import PipedCompiler.Text.JsonValue

/-!
# Reading back the strings of a value

A string in a JSON text ends at the first quotation mark that is not escaped, and each of its
characters can be read back.  So different strings never have the same text, whatever follows them.
-/

namespace PipedCompiler.Text.JsonValue

/-- The value of a hexadecimal digit. -/
def hexadecimal (c : Char) : Nat :=
  if c.isDigit then c.toNat - '0'.toNat else c.toNat - 'a'.toNat + 10

/-- The character that an escape stands for, by the letter behind the backslash. -/
def escaped (letter : Char) : Char :=
  match letter with
  | 'b' => '\x08'
  | 'f' => '\x0c'
  | 'n' => '\n'
  | 'r' => '\r'
  | 't' => '\t'
  | c => c

/-- Reads a character of a string; `none` at its end. -/
def readChar? : List Char → Option (Char × List Char)
  | '"' :: _ => none
  | '\\' :: 'u' :: '0' :: '0' :: a :: b :: rest =>
    some (Char.ofNat (16 * hexadecimal a + hexadecimal b), rest)
  | '\\' :: letter :: rest => some (escaped letter, rest)
  | c :: rest => some (c, rest)
  | [] => none

theorem hexadecimal_digits : ∀ n < 0x20,
    16 * hexadecimal (Nat.digitChar (n / 16)) + hexadecimal (Nat.digitChar (n % 16)) = n := by
  decide

theorem readChar?_escapedChar (c : Char) (rest : List Char) :
    readChar? (escapedChar c ++ rest) = some (c, rest) := by
  unfold escapedChar
  split
  iterate 7 rfl
  · next hquote hbackslash _ _ _ _ _ =>
    by_cases hcontrol : c.toNat < 0x20
    · rw [if_pos hcontrol]
      show some (Char.ofNat (16 * hexadecimal (Nat.digitChar (c.toNat / 16)) +
        hexadecimal (Nat.digitChar (c.toNat % 16))), rest) = _
      rw [hexadecimal_digits c.toNat hcontrol, Char.ofNat_toNat]
    · rw [if_neg hcontrol]
      exact readChar?.eq_4 _ _ hquote (fun _ _ _ h _ ↦ hbackslash h) fun _ _ h _ ↦ hbackslash h

theorem flatMap_escapedChar_inj {cs ds rest rest' : List Char}
    (h : cs.flatMap escapedChar ++ '"' :: rest = ds.flatMap escapedChar ++ '"' :: rest') :
    cs = ds ∧ rest = rest' := by
  induction cs generalizing ds with
  | nil =>
      cases ds with
      | nil => exact ⟨rfl, (List.cons.inj h).2⟩
      | cons d ds =>
          rw [List.flatMap_cons, List.append_assoc] at h
          have hread := congrArg readChar? h
          rw [readChar?_escapedChar] at hread
          cases hread
  | cons c cs ih =>
      rw [List.flatMap_cons, List.append_assoc] at h
      have hread := congrArg readChar? h
      rw [readChar?_escapedChar] at hread
      cases ds with
      | nil => cases hread
      | cons d ds =>
          rw [List.flatMap_cons, List.append_assoc, readChar?_escapedChar] at hread
          obtain ⟨rfl, hmore⟩ := Prod.mk.inj (Option.some.inj hread)
          obtain ⟨rfl, hrest⟩ := ih hmore
          exact ⟨rfl, hrest⟩

/-- A string can be told from its text, and what follows it can be told from it. -/
theorem stringText_append_inj {s t : String} {rest rest' : List Char}
    (h : stringText s ++ rest = stringText t ++ rest') : s = t ∧ rest = rest' := by
  obtain ⟨hlist, hrest⟩ : s.toList = t.toList ∧ rest = rest' :=
    flatMap_escapedChar_inj (by simpa [stringText] using h)
  exact ⟨String.toList_inj.mp hlist, hrest⟩

end PipedCompiler.Text.JsonValue
