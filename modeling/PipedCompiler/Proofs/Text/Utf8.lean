import PipedCompiler.Text.Utf8

/-!
# Reading back what has been encoded

The machine that reads UTF-8 is followed over the bytes of one character, and from there over those
of a text: `segments_encode` says that the segments of an encoded text are its characters.  So a
text is got back from its bytes, whether bad pieces are refused or replaced.
-/

namespace PipedCompiler.Text

namespace Utf8

/-! ## Bytes by their numbers -/

theorem toNat_ofNat_of_lt {n : Nat} (hn : n < 256) : (UInt8.ofNat n).toNat = n := by
  rw [UInt8.toNat_ofNat', Nat.mod_eq_of_lt hn]

theorem toNat_charOfNat_of_lt {n : Nat} (hn : n < 0x80) : (Char.ofNat n).toNat = n := by
  rw [Char.ofNat, dif_pos (.inl (by omega))]
  rfl

private theorem lt_ofNat_iff {a b : Nat} (ha : a < 256) (hb : b < 256) :
    UInt8.ofNat a < UInt8.ofNat b ↔ a < b := by
  rw [UInt8.lt_iff_toNat_lt, toNat_ofNat_of_lt ha, toNat_ofNat_of_lt hb]

private theorem eq_ofNat_iff {a b : Nat} (ha : a < 256) (hb : b < 256) :
    UInt8.ofNat a = UInt8.ofNat b ↔ a = b := by
  rw [← UInt8.toNat_inj, toNat_ofNat_of_lt ha, toNat_ofNat_of_lt hb]

/-- What a byte starts, by its number. -/
theorem lead_ofNat {n : Nat} (hn : n < 256) :
    lead (UInt8.ofNat n) =
      if n < 0x80 then .inl (.char (Char.ofNat n))
      else if n < 0xc2 then .inl (.broken 1)
      else if n < 0xe0 then .inr ⟨1, n % 0x20, 0, 0x80, 0xbf⟩
      else if n = 0xe0 then .inr ⟨1, 0, 1, 0xa0, 0xbf⟩
      else if n = 0xed then .inr ⟨1, 0xd, 1, 0x80, 0x9f⟩
      else if n < 0xf0 then .inr ⟨1, n % 0x10, 1, 0x80, 0xbf⟩
      else if n = 0xf0 then .inr ⟨1, 0, 2, 0x90, 0xbf⟩
      else if n < 0xf4 then .inr ⟨1, n % 0x08, 2, 0x80, 0xbf⟩
      else if n = 0xf4 then .inr ⟨1, 4, 2, 0x80, 0x8f⟩
      else .inl (.broken 1) := by
  have h80 : UInt8.ofNat n < 0x80 ↔ n < 0x80 := lt_ofNat_iff hn (by decide)
  have hc2 : UInt8.ofNat n < 0xc2 ↔ n < 0xc2 := lt_ofNat_iff hn (by decide)
  have he0 : UInt8.ofNat n < 0xe0 ↔ n < 0xe0 := lt_ofNat_iff hn (by decide)
  have hf0 : UInt8.ofNat n < 0xf0 ↔ n < 0xf0 := lt_ofNat_iff hn (by decide)
  have hf4 : UInt8.ofNat n < 0xf4 ↔ n < 0xf4 := lt_ofNat_iff hn (by decide)
  have ee0 : UInt8.ofNat n = 0xe0 ↔ n = 0xe0 := eq_ofNat_iff hn (by decide)
  have eed : UInt8.ofNat n = 0xed ↔ n = 0xed := eq_ofNat_iff hn (by decide)
  have ef0 : UInt8.ofNat n = 0xf0 ↔ n = 0xf0 := eq_ofNat_iff hn (by decide)
  have ef4 : UInt8.ofNat n = 0xf4 ↔ n = 0xf4 := eq_ofNat_iff hn (by decide)
  simp only [lead, h80, hc2, he0, hf0, hf4, ee0, eed, ef0, ef4, toNat_ofNat_of_lt hn]

/-- An ASCII byte is a character by itself. -/
theorem lead_one {v : Nat} (h : v < 0x80) :
    lead (UInt8.ofNat v) = .inl (.char (Char.ofNat v)) := by
  rw [lead_ofNat (by omega), if_pos h]

/-- The start of a character of two bytes. -/
theorem lead_two {q : Nat} (h₂ : 2 ≤ q) (h : q < 0x20) :
    lead (UInt8.ofNat (q + 0xc0)) = .inr ⟨1, q, 0, 0x80, 0xbf⟩ := by
  rw [lead_ofNat (by omega)]
  grind

/-- The start of a character of three bytes.  The second byte is held off from encodings that are
too long and from surrogates. -/
theorem lead_three {q : Nat} (h : q < 0x10) :
    lead (UInt8.ofNat (q + 0xe0)) =
      .inr ⟨1, q, 1, if q = 0 then 0xa0 else 0x80, if q = 0xd then 0x9f else 0xbf⟩ := by
  rw [lead_ofNat (by omega)]
  grind

/-- The start of a character of four bytes.  The second byte is held off from encodings that are too
long and from what lies past the last code point. -/
theorem lead_four {q : Nat} (h : q ≤ 4) :
    lead (UInt8.ofNat (q + 0xf0)) =
      .inr ⟨1, q, 2, if q = 0 then 0x90 else 0x80, if q = 4 then 0x8f else 0xbf⟩ := by
  rw [lead_ofNat (by omega)]
  grind

/-! ## One character -/

/-- The numbers of the bytes that a pending character goes on with. -/
def Pending.Takes (p : Pending) (n : Nat) : Prop :=
  p.low.toNat ≤ n ∧ n ≤ p.high.toNat

theorem run_none_cons (b : UInt8) (bs : Bytes) (acc : List Segment) :
    run none (b :: bs) acc =
      match lead b with
      | .inl segment => run none bs (segment :: acc)
      | .inr p => run (some p) bs acc :=
  rfl

/-- A byte that fits ends the pending character, or brings it one byte closer to its end. -/
theorem run_some_of_takes {p : Pending} {n : Nat} (hn : n < 256) (h : p.Takes n) (bs : Bytes)
    (acc : List Segment) :
    run (some p) (UInt8.ofNat n :: bs) acc =
      match p.later with
      | 0 => run none bs (.char (Char.ofNat (p.code * 0x40 + n % 0x40)) :: acc)
      | later + 1 =>
        run (some ⟨p.seen + 1, p.code * 0x40 + n % 0x40, later, 0x80, 0xbf⟩) bs acc := by
  have hlow : p.low ≤ UInt8.ofNat n := by
    rw [UInt8.le_iff_toNat_le, toNat_ofNat_of_lt hn]
    exact h.1
  have hhigh : UInt8.ofNat n ≤ p.high := by
    rw [UInt8.le_iff_toNat_le, toNat_ofNat_of_lt hn]
    exact h.2
  rw [run, if_pos (by simp [hlow, hhigh])]
  cases p.later with
  | zero => simp only [toNat_ofNat_of_lt hn]
  | succ later => simp only [toNat_ofNat_of_lt hn]

/-- Six more bits always fit a pending character whose next byte is not held off from anything. -/
theorem Pending.takes_next (seen code later v : Nat) :
    Takes ⟨seen, code, later, 0x80, 0xbf⟩ (v % 0x40 + 0x80) := by
  constructor
  · exact Nat.le_add_left _ _
  · show v % 0x40 + 0x80 ≤ 0xbf
    omega

/-- The second of three bytes fits, as the character needs three and is no surrogate. -/
theorem Pending.takes_three {v : Nat} (hlong : 0x800 ≤ v) (hshort : v < 0x10000)
    (hvalid : v < 0xd800 ∨ 0xdfff < v) :
    Takes ⟨1, v / 4096 % 0x10, 1, if v / 4096 % 0x10 = 0 then 0xa0 else 0x80,
      if v / 4096 % 0x10 = 0xd then 0x9f else 0xbf⟩ (v / 64 % 0x40 + 0x80) := by
  constructor
  · dsimp only
    split
    · show 0xa0 ≤ v / 64 % 0x40 + 0x80
      omega
    · exact Nat.le_add_left _ _
  · dsimp only
    split
    · show v / 64 % 0x40 + 0x80 ≤ 0x9f
      omega
    · show v / 64 % 0x40 + 0x80 ≤ 0xbf
      omega

/-- The second of four bytes fits, as the character needs four and there is none past the last. -/
theorem Pending.takes_four {v : Nat} (hlong : 0x10000 ≤ v) (hlast : v < 0x110000) :
    Takes ⟨1, v / 262144 % 0x08, 2, if v / 262144 % 0x08 = 0 then 0x90 else 0x80,
      if v / 262144 % 0x08 = 4 then 0x8f else 0xbf⟩ (v / 4096 % 0x40 + 0x80) := by
  constructor
  · dsimp only
    split
    · show 0x90 ≤ v / 4096 % 0x40 + 0x80
      omega
    · exact Nat.le_add_left _ _
  · dsimp only
    split
    · show v / 4096 % 0x40 + 0x80 ≤ 0x8f
      omega
    · show v / 4096 % 0x40 + 0x80 ≤ 0xbf
      omega

/-- The bytes of a character are read as that character. -/
theorem run_encodeChar (c : Char) (bs : Bytes) (acc : List Segment) :
    run none (String.utf8EncodeChar c ++ bs) acc = run none bs (.char c :: acc) := by
  have hvalid : c.val.toNat < 0xd800 ∨ 0xdfff < c.val.toNat ∧ c.val.toNat < 0x110000 := c.valid
  have hc : Char.ofNat c.val.toNat = c := Char.ofNat_toNat c
  generalize hv : c.val.toNat = v at hvalid hc
  simp only [String.utf8EncodeChar, hv]
  -- One case for each number of bytes; the last step gathers their bits again.
  split
  · simp only [List.cons_append, List.nil_append, run_none_cons, lead_one (v := v) (by omega), hc]
  split
  · simp only [List.cons_append, List.nil_append]
    rw [run_none_cons, lead_two (by omega) (by omega)]
    simp only
    rw [run_some_of_takes (by omega) (Pending.takes_next _ _ _ v)]
    have hcode : v / 64 % 0x20 * 0x40 + (v % 0x40 + 0x80) % 0x40 = v := by omega
    simp only [hcode, hc]
  split
  · simp only [List.cons_append, List.nil_append]
    rw [run_none_cons, lead_three (by omega)]
    simp only
    rw [run_some_of_takes (by omega) (Pending.takes_three (by omega) (by omega) (by omega))]
    simp only
    rw [run_some_of_takes (by omega) (Pending.takes_next _ _ _ v)]
    have hcode : (v / 4096 % 0x10 * 0x40 + (v / 64 % 0x40 + 0x80) % 0x40) * 0x40 +
        (v % 0x40 + 0x80) % 0x40 = v := by omega
    simp only [hcode, hc]
  · simp only [List.cons_append, List.nil_append]
    rw [run_none_cons, lead_four (by omega)]
    simp only
    rw [run_some_of_takes (by omega) (Pending.takes_four (by omega) (by omega))]
    simp only
    rw [run_some_of_takes (by omega) (Pending.takes_next _ _ _ (v / 64))]
    simp only
    rw [run_some_of_takes (by omega) (Pending.takes_next _ _ _ v)]
    have hcode : ((v / 262144 % 0x08 * 0x40 + (v / 4096 % 0x40 + 0x80) % 0x40) * 0x40 +
        (v / 64 % 0x40 + 0x80) % 0x40) * 0x40 + (v % 0x40 + 0x80) % 0x40 = v := by omega
    simp only [hcode, hc]

/-! ## Texts -/

@[simp] theorem encode_nil : encode [] = [] := rfl

@[simp] theorem encode_cons (c : Char) (cs : List Char) :
    encode (c :: cs) = String.utf8EncodeChar c ++ encode cs := rfl

@[simp] theorem encode_append (cs ds : List Char) :
    encode (cs ++ ds) = encode cs ++ encode ds := List.flatMap_append

theorem run_encode (cs : List Char) (acc : List Segment) :
    run none (encode cs) acc = acc.reverse ++ cs.map .char := by
  induction cs generalizing acc with
  | nil => simp [run]
  | cons c cs ih => rw [encode_cons, run_encodeChar, ih]; simp

/-- The segments of an encoded text are its characters. -/
theorem segments_encode (cs : List Char) : segments (encode cs) = cs.map .char := by
  rw [segments, run_encode]
  simp

/-- Nothing of an encoded text is replaced. -/
@[simp] theorem decodeLossy_encode (cs : List Char) : decodeLossy (encode cs) = cs := by
  rw [decodeLossy, segments_encode, List.map_map]
  exact List.map_id cs

/-- An ASCII character is one byte. -/
theorem encodeChar_ascii {c : Char} (h : c.toNat < 0x80) :
    String.utf8EncodeChar c = [UInt8.ofNat c.toNat] := by
  have hv : c.val.toNat ≤ 0x7f := Nat.le_of_lt_succ h
  simp only [String.utf8EncodeChar, hv, ↓reduceIte]
  rfl

/-- A character that is not ASCII has no ASCII bytes. -/
theorem le_toNat_of_mem_encodeChar {c : Char} (h : 0x80 ≤ c.toNat) {b : UInt8}
    (hb : b ∈ String.utf8EncodeChar c) : 0x80 ≤ b.toNat := by
  have hlarge {n : Nat} (hn : 0x80 ≤ n) (hn' : n < 256) : 0x80 ≤ (UInt8.ofNat n).toNat := by
    rwa [toNat_ofNat_of_lt hn']
  have hv : ¬ c.val.toNat ≤ 0x7f := Nat.not_le_of_lt h
  simp only [String.utf8EncodeChar, hv, ↓reduceIte] at hb
  -- One case for each number of bytes, and in it one for each of them.
  split at hb
  · simp only [List.mem_cons, List.not_mem_nil, or_false] at hb
    rcases hb with rfl | rfl <;> exact hlarge (by omega) (by omega)
  split at hb
  · simp only [List.mem_cons, List.not_mem_nil, or_false] at hb
    rcases hb with rfl | rfl | rfl <;> exact hlarge (by omega) (by omega)
  · simp only [List.mem_cons, List.not_mem_nil, or_false] at hb
    rcases hb with rfl | rfl | rfl | rfl <;> exact hlarge (by omega) (by omega)

/-- An ASCII character stands in a text if its byte stands among those of the text. -/
theorem ofNat_mem_encode_iff {c : Char} (h : c.toNat < 0x80) {cs : List Char} :
    UInt8.ofNat c.toNat ∈ encode cs ↔ c ∈ cs := by
  induction cs with
  | nil => simp
  | cons d cs ih =>
      rw [encode_cons, List.mem_append, List.mem_cons, ih]
      refine or_congr_left ?_
      by_cases hd : d.toNat < 0x80
      · rw [encodeChar_ascii hd, List.mem_singleton, eq_ofNat_iff (by omega) (by omega),
          Char.toNat_inj]
      · refine iff_of_false (fun hmem ↦ ?_) ?_
        · have hlarge := le_toNat_of_mem_encodeChar (Nat.not_lt.mp hd) hmem
          rw [toNat_ofNat_of_lt (by omega)] at hlarge
          omega
        · rintro rfl
          exact hd h

theorem collect_map_char (cs : List Char) (index : Nat) (acc : List Char) :
    collect index acc (cs.map .char) = .ok (acc.reverse ++ cs) := by
  induction cs generalizing index acc with
  | nil => rw [List.map_nil, collect, List.append_nil]
  | cons c cs ih => rw [List.map_cons, collect, ih, List.reverse_cons, List.append_assoc]; rfl

/-- A text is decoded from its bytes. -/
@[simp] theorem decode_encode (cs : List Char) : decode (encode cs) = .ok cs := by
  rw [decode, segments_encode, collect_map_char]
  rfl

/-- Different texts have different bytes. -/
theorem encode_injective {cs ds : List Char} (h : encode cs = encode ds) : cs = ds := by
  rw [← decodeLossy_encode cs, h, decodeLossy_encode]

/-- Segments that have been read before stay as they are. -/
theorem run_acc (p : Option Pending) (bs : Bytes) (acc : List Segment) :
    run p bs acc = acc.reverse ++ run p bs [] := by
  induction bs generalizing p acc with
  | nil => cases p <;> simp [run]
  | cons b bs ih =>
      cases p with
      | none =>
          rw [run, run]
          cases lead b with
          | inl segment =>
              dsimp only
              rw [ih none (segment :: acc), ih none [segment]]
              simp
          | inr q => exact ih (some q) acc
      | some p =>
          rw [run, run]
          split
          · cases p.later with
            | zero =>
                dsimp only
                rw [ih none (_ :: acc), ih none [_]]
                simp
            | succ later => exact ih _ acc
          · cases lead b with
            | inl segment =>
                dsimp only
                rw [ih none (_ :: _ :: acc), ih none [_, _]]
                simp
            | inr q =>
                dsimp only
                rw [ih _ (_ :: acc), ih _ [_]]
                simp

/-- The segments of a text come first, whatever bytes are behind it. -/
theorem segments_encode_append (cs : List Char) (bs : Bytes) :
    segments (encode cs ++ bs) = cs.map .char ++ segments bs := by
  induction cs with
  | nil => rfl
  | cons c cs ih =>
      rw [segments] at ih
      rw [encode_cons, List.append_assoc, segments, run_encodeChar, run_acc, ih]
      rfl

/-- A text whose bytes start with those of another one starts with it. -/
theorem exists_of_encode_eq_append {cs ds : List Char} {bs : Bytes}
    (h : encode cs = encode ds ++ bs) : ∃ es, cs = ds ++ es ∧ bs = encode es := by
  have hsegments : cs.map Segment.char = ds.map .char ++ segments bs := by
    rw [← segments_encode, h, segments_encode_append]
  obtain ⟨start, es, rfl, hstart, -⟩ := List.map_eq_append_iff.mp hsegments
  obtain rfl : start = ds := (List.map_inj_right fun _ _ h ↦ Segment.char.inj h).mp hstart
  rw [encode_append, List.append_cancel_left_eq] at h
  exact ⟨es, rfl, h.symm⟩

/-- A text whose last byte is that of an ASCII character ends in the character. -/
theorem exists_of_encode_eq_concat {cs : List Char} {c : Char} (hc : c.toNat < 0x80) {bs : Bytes}
    (h : encode cs = bs ++ [UInt8.ofNat c.toNat]) : ∃ ds, cs = ds ++ [c] ∧ bs = encode ds := by
  rcases List.eq_nil_or_concat cs with rfl | ⟨ds, d, rfl⟩
  · simp at h
  rw [List.concat_eq_append, encode_append, encode_cons, encode_nil, List.append_nil] at h
  have hd : d.toNat < 0x80 := by
    refine Nat.lt_of_not_le fun hlarge ↦ ?_
    rcases List.eq_nil_or_concat (String.utf8EncodeChar d) with hnil | ⟨front, b, hbytes⟩
    · exact String.utf8EncodeChar_ne_nil hnil
    · have hmem : b ∈ String.utf8EncodeChar d := by simp [hbytes]
      have hb := le_toNat_of_mem_encodeChar hlarge hmem
      rw [hbytes, List.concat_eq_append, ← List.append_assoc] at h
      obtain ⟨-, hlast⟩ := List.append_inj' h rfl
      rw [List.head_eq_of_cons_eq hlast, toNat_ofNat_of_lt (by omega)] at hb
      omega
  rw [encodeChar_ascii hd] at h
  obtain ⟨rfl, hbyte⟩ := List.append_inj' h rfl
  rw [List.cons.injEq, eq_ofNat_iff (by omega) (by omega), Char.toNat_inj] at hbyte
  exact ⟨ds, by rw [hbyte.1, List.concat_eq_append], rfl⟩

/-- What is left of an ASCII text that is cut off among its bytes is the start of the text. -/
theorem exists_of_prefix_encode {cs : List Char} (hcs : ∀ c ∈ cs, c.toNat < 0x80) {p : Bytes}
    (hp : p <+: encode cs) : ∃ cs', cs' <+: cs ∧ p = encode cs' := by
  induction cs generalizing p with
  | nil => exact ⟨[], List.prefix_rfl, List.prefix_nil.mp hp⟩
  | cons c cs ih =>
      rw [encode_cons, encodeChar_ascii (hcs c List.mem_cons_self)] at hp
      rcases List.prefix_cons_iff.mp hp with rfl | ⟨q, rfl, hq⟩
      · exact ⟨[], List.nil_prefix, rfl⟩
      · obtain ⟨ds, hds, rfl⟩ := ih (fun d hd ↦ hcs d (List.mem_cons_of_mem c hd)) hq
        refine ⟨c :: ds, List.cons_prefix_cons.mpr ⟨rfl, hds⟩, ?_⟩
        rw [encode_cons, encodeChar_ascii (hcs c List.mem_cons_self)]
        rfl

end Utf8

/-- A string is got back from its bytes. -/
@[simp] theorem lossyString_bytesOf (s : String) : lossyString (bytesOf s) = s := by
  rw [lossyString, bytesOf, Utf8.decodeLossy_encode, String.ofList_toList]

end PipedCompiler.Text
