import Mathlib.Data.List.Nodup
import PipedCompiler.Cache.Base64Url

/-!
# Reading back the bytes of a name

Every character gives back the six bits that it stands for, and from these the bytes can be put
together again.  So different bytes have different names, and how long a name is depends only on how
many bytes it has.
-/

namespace PipedCompiler.Cache.Base64Url

open PipedCompiler.Text

/-! ## Characters -/

theorem nodup_alphabet : alphabet.Nodup := by
  decide +kernel

theorem getElem?_sextet (n : Nat) : alphabet[n % 64]? = some (sextet n) := by
  have hindex : n % 64 < alphabet.length := Nat.mod_lt _ (by decide)
  rw [sextet, List.getD_eq_getElem?_getD, List.getElem?_eq_getElem hindex, Option.getD_some]

theorem sextet_mem (n : Nat) : sextet n ∈ alphabet :=
  List.mem_of_getElem? (getElem?_sextet n)

/-- A character gives back its six bits. -/
theorem idxOf_sextet (n : Nat) : alphabet.idxOf (sextet n) = n % 64 := by
  obtain ⟨hindex, heq⟩ := List.getElem?_eq_some_iff.mp (getElem?_sextet n)
  rw [← heq]
  exact nodup_alphabet.idxOf_getElem _ hindex

/-- Only characters of the alphabet are used. -/
theorem mem_alphabet_of_mem_encode {bs : Bytes} {c : Char} (h : c ∈ encode bs) :
    c ∈ alphabet := by
  induction bs using encode.induct with
  | case1 => cases h
  | case2 a =>
      simp only [encode, List.mem_cons, List.not_mem_nil, or_false] at h
      rcases h with rfl | rfl <;> exact sextet_mem _
  | case3 a b =>
      simp only [encode, List.mem_cons, List.not_mem_nil, or_false] at h
      rcases h with rfl | rfl | rfl <;> exact sextet_mem _
  | case4 a b c bs ih =>
      simp only [encode, List.mem_cons] at h
      rcases h with rfl | rfl | rfl | rfl | h
      · exact sextet_mem _
      · exact sextet_mem _
      · exact sextet_mem _
      · exact sextet_mem _
      · exact ih h

/-- Three bytes fill four characters. -/
theorem length_encode (bs : Bytes) : (encode bs).length = (4 * bs.length + 2) / 3 := by
  induction bs using encode.induct with
  | case1 => rfl
  | case2 a => simp [encode]
  | case3 a b => simp [encode]
  | case4 a b c bs ih =>
      simp only [encode, List.length_cons, ih]
      omega

/-! ## Bytes -/

/-- The number that characters stand for, six bits each. -/
def value (cs : List Char) : Nat :=
  cs.foldl (fun n c => 64 * n + alphabet.idxOf c) 0

theorem value_two {n : Nat} (h : n < 4096) : value [sextet (n >>> 6), sextet n] = n := by
  simp only [value, List.foldl, idxOf_sextet]
  omega

theorem value_three {n : Nat} (h : n < 262144) :
    value [sextet (n >>> 12), sextet (n >>> 6), sextet n] = n := by
  simp only [value, List.foldl, idxOf_sextet]
  omega

theorem value_four {n : Nat} (h : n < 16777216) :
    value [sextet (n >>> 18), sextet (n >>> 12), sextet (n >>> 6), sextet n] = n := by
  simp only [value, List.foldl, idxOf_sextet]
  omega

/-- The bytes of some characters.  What a last group has beside whole bytes is passed over. -/
def decode : List Char → Bytes
  | [a, b] => [(value [a, b] >>> 4).toUInt8]
  | [a, b, c] => [(value [a, b, c] >>> 10).toUInt8, (value [a, b, c] >>> 2).toUInt8]
  | a :: b :: c :: d :: cs =>
    (value [a, b, c, d] >>> 16).toUInt8 :: (value [a, b, c, d] >>> 8).toUInt8 ::
      (value [a, b, c, d]).toUInt8 :: decode cs
  | _ => []

theorem toUInt8_eq {n : Nat} {b : UInt8} (h : n % 256 = b.toNat) : n.toUInt8 = b :=
  UInt8.toNat_inj.mp h

theorem decode_encode (bs : Bytes) : decode (encode bs) = bs := by
  induction bs using encode.induct with
  | case1 => rfl
  | case2 a =>
      have hlt := a.toNat_lt
      have ha : (a.toNat <<< 4 >>> 4).toUInt8 = a := toUInt8_eq (by omega)
      rw [encode, decode, value_two (by omega), ha]
  | case3 a b =>
      have hlt := a.toNat_lt
      have hlt' := b.toNat_lt
      -- Bits that do not overlap add up.
      have hn : a.toNat <<< 10 ||| b.toNat <<< 2 = a.toNat <<< 10 + b.toNat <<< 2 :=
        (Nat.shiftLeft_add_eq_or_of_lt (by omega) _).symm
      rw [encode, hn, decode, value_three (by omega)]
      generalize hm : a.toNat <<< 10 + b.toNat <<< 2 = m
      have ha : (m >>> 10).toUInt8 = a := toUInt8_eq (by omega)
      have hb : (m >>> 2).toUInt8 = b := toUInt8_eq (by omega)
      rw [ha, hb]
  | case4 a b c bs ih =>
      have hlt := a.toNat_lt
      have hlt' := b.toNat_lt
      have hlt'' := c.toNat_lt
      have hlow : b.toNat <<< 8 ||| c.toNat = b.toNat <<< 8 + c.toNat :=
        (Nat.shiftLeft_add_eq_or_of_lt (by omega) _).symm
      have hn : a.toNat <<< 16 ||| b.toNat <<< 8 ||| c.toNat =
          a.toNat <<< 16 + (b.toNat <<< 8 + c.toNat) := by
        rw [Nat.or_assoc, hlow]
        exact (Nat.shiftLeft_add_eq_or_of_lt (by omega) _).symm
      rw [encode, hn, decode, value_four (by omega), ih]
      generalize hm : a.toNat <<< 16 + (b.toNat <<< 8 + c.toNat) = m
      have ha : (m >>> 16).toUInt8 = a := toUInt8_eq (by omega)
      have hb : (m >>> 8).toUInt8 = b := toUInt8_eq (by omega)
      have hc : m.toUInt8 = c := toUInt8_eq (by omega)
      rw [ha, hb, hc]

theorem encode_injective : Function.Injective encode :=
  Function.LeftInverse.injective decode_encode

end PipedCompiler.Cache.Base64Url
