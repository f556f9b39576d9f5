import PipedCompiler.Text.Decimal

/-!
# Reading back the digits of a number

The digits of a number are decimal digits that have the number as their value, and a number of at
most 63 bits is got back from them.  What else is read as a number is what `Numeral` says: there may
be zeros in front, and a minus sign.
-/

namespace PipedCompiler.Text.Decimal

theorem isDigit_of_mem_digits {n : Nat} {c : Char} (h : c ∈ digits n) : c.isDigit = true :=
  Nat.isDigit_of_mem_toDigits (by decide) (by decide) h

theorem digits_ne_nil (n : Nat) : digits n ≠ [] :=
  Nat.toDigits_ne_nil

theorem valueIn_digits (n : Nat) : valueIn 10 digitValue (digits n) = n :=
  Nat.ofDigitChars_ten_toDigits

/-- A number below a power of ten has at most as many digits. -/
theorem length_digits_le {n k : Nat} (hk : 0 < k) (h : n < Nat.pow 10 k) : (digits n).length ≤ k :=
  (Nat.length_toDigits_le_iff (by decide) hk).mpr h

/-- The digits of a number stand for it. -/
@[simp] theorem nat?_digits (n : Nat) : nat? (digits n) = some n := by
  have hall : (digits n).all Char.isDigit = true :=
    List.all_eq_true.mpr fun _ hc ↦ isDigit_of_mem_digits hc
  simp [nat?, digits_ne_nil, hall, valueIn_digits]

/-- No digits start with a minus sign. -/
theorem head?_digits_ne_minus (n : Nat) (cs : List Char) : digits n ≠ '-' :: cs := by
  intro h
  have hminus : Char.isDigit '-' = true := isDigit_of_mem_digits (n := n) (by simp [h])
  exact absurd hminus (by decide)

/-- A number of at most 63 bits is got back from its digits. -/
theorem int64?_digits {n : Nat} (h : n < Nat.pow 2 63) : int64? (digits n) = some (n : Int) := by
  have hfilter : (some n).filter (fun n ↦ decide (n < Nat.pow 2 63)) = some n := by
    rw [Option.filter_some, if_pos (decide_eq_true h)]
  rw [int64?.eq_2 _ fun cs hcs ↦ head?_digits_ne_minus n cs hcs, nat?_digits, hfilter]
  rfl

/-- Digits stand for no other number of at most 63 bits. -/
theorem eq_of_int64?_digits {n : Nat} {k : Int} (h : int64? (digits n) = some k) : k = n := by
  by_cases hn : n < Nat.pow 2 63
  · rw [int64?_digits hn] at h
    exact (Option.some.inj h).symm
  · rw [int64?.eq_2 _ fun cs hcs ↦ head?_digits_ne_minus n cs hcs, nat?_digits,
      Option.filter_some, if_neg (by simpa using hn)] at h
    cases h

theorem nat?_eq_some_iff {cs : List Char} {n : Nat} :
    nat? cs = some n ↔
      cs ≠ [] ∧ (∀ c ∈ cs, c.isDigit = true) ∧ valueIn 10 digitValue cs = n := by
  rw [nat?]
  split
  · next h =>
    rw [Bool.and_eq_true, decide_eq_true_eq, List.all_eq_true] at h
    rw [Option.some.injEq, and_iff_right h.1, and_iff_right h.2]
  · next h =>
    rw [Bool.and_eq_true, decide_eq_true_eq, List.all_eq_true] at h
    exact iff_of_false nofun fun hn ↦ h ⟨hn.1, hn.2.1⟩

/-- The integers as they are written: some digits, with a minus sign in front of them or without. -/
inductive Numeral : List Char → Int → Prop where
  | digits {cs : List Char} : cs ≠ [] → (∀ c ∈ cs, c.isDigit = true) →
      Numeral cs (valueIn 10 digitValue cs)
  | minus {cs : List Char} : cs ≠ [] → (∀ c ∈ cs, c.isDigit = true) →
      Numeral ('-' :: cs) (-(valueIn 10 digitValue cs))

/-- Numerals are read, unless 63 bits and a sign are too few for them. -/
theorem int64?_eq_some_iff {cs : List Char} {n : Int} :
    int64? cs = some n ↔
      Numeral cs n ∧ -(Nat.pow 2 63 : Nat) ≤ n ∧ n < (Nat.pow 2 63 : Nat) := by
  have hpos : 0 < Nat.pow 2 63 := by decide
  constructor
  · intro h
    unfold int64? at h
    split at h
    · obtain ⟨_, hcast, rfl⟩ := Option.map_eq_some_iff.mp h
      obtain ⟨m, hm, ⟨⟩⟩ := Option.bind_eq_some_iff.mp hcast
      obtain ⟨hm, hle⟩ := Option.filter_eq_some_iff.mp hm
      obtain ⟨hne, hdigits, rfl⟩ := nat?_eq_some_iff.mp hm
      have hle : valueIn 10 digitValue _ ≤ Nat.pow 2 63 := of_decide_eq_true hle
      exact ⟨.minus hne hdigits, by omega, by omega⟩
    · obtain ⟨_, hcast, rfl⟩ := Option.map_eq_some_iff.mp h
      obtain ⟨m, hm, ⟨⟩⟩ := Option.bind_eq_some_iff.mp hcast
      obtain ⟨hm, hlt⟩ := Option.filter_eq_some_iff.mp hm
      obtain ⟨hne, hdigits, rfl⟩ := nat?_eq_some_iff.mp hm
      have hlt : valueIn 10 digitValue _ < Nat.pow 2 63 := of_decide_eq_true hlt
      exact ⟨.digits hne hdigits, by omega, by omega⟩
  · rintro ⟨hcs, hlow, hhigh⟩
    cases hcs with
    | digits hne hdigits =>
        have hminus : ∀ rest, cs ≠ '-' :: rest := by
          rintro rest rfl
          exact absurd (hdigits '-' List.mem_cons_self) (by decide)
        have hlt : valueIn 10 digitValue cs < Nat.pow 2 63 := by omega
        rw [int64?.eq_2 _ hminus, nat?_eq_some_iff.mpr ⟨hne, hdigits, rfl⟩, Option.filter_some,
          if_pos (decide_eq_true hlt)]
        rfl
    | @minus cs hne hdigits =>
        have hle : valueIn 10 digitValue cs ≤ Nat.pow 2 63 := by omega
        rw [int64?, nat?_eq_some_iff.mpr ⟨hne, hdigits, rfl⟩, Option.filter_some,
          if_pos (decide_eq_true hle)]
        rfl

/-- No digits start with a plus sign. -/
theorem head?_digits_ne_plus (n : Nat) (cs : List Char) : digits n ≠ '+' :: cs := by
  intro h
  have hplus : Char.isDigit '+' = true := isDigit_of_mem_digits (n := n) (by simp [h])
  exact absurd hplus (by decide)

/-- A number below a limit is got back from its digits. -/
theorem natBelow?_digits {n limit : Nat} (h : n < limit) :
    natBelow? limit (digits n) = some n := by
  rw [natBelow?.eq_2 _ _ fun cs hcs ↦ head?_digits_ne_plus n cs hcs, nat?_digits,
    Option.filter_some, if_pos (decide_eq_true h)]

end PipedCompiler.Text.Decimal
