import PipedCompiler.Proofs.Bridge.Frame

/-!
# The format of contents

What reading contents comes to is a matter of the bytes alone, and there are five things that it can
come to.  Four of them have a shape of their own: bytes start with contents, or with the sign that
there are none, or end inside the count, or end inside the body.  The shapes are told without the
reading; `readContents_outcomes` says that each is found where it is and nowhere else, and that all
other bytes are refused.
-/

namespace PipedCompiler.Bridge

open PipedCompiler.Text

/-! ## The shapes -/

/-- Whether bytes start with contents: a number of at most 20 characters and 63 bits, a space, and
as many bytes. -/
def StartsWithContents (bs body tail : Bytes) : Prop :=
  ∃ count, Decimal.Numeral count body.length ∧ count.length ≤ 20 ∧ body.length < Nat.pow 2 63 ∧
    bs = Utf8.encode count ++ space :: (body ++ tail)

/-- Whether bytes start with the sign that there are no contents: a number below zero, of at most 20
characters, 63 bits and a sign, and a space. -/
def StartsWithAbsence (bs tail : Bytes) : Prop :=
  ∃ count n, Decimal.Numeral count n ∧ count.length ≤ 20 ∧ -(Nat.pow 2 63 : Nat) ≤ n ∧ n < 0 ∧
    bs = Utf8.encode count ++ space :: tail

/-- Whether bytes end inside a count, of which there are so many characters. -/
def EndsInCount (bs : Bytes) (received : Nat) : Prop :=
  ∃ count, CountChars count ∧ count.length = received ∧ received ≤ 20 ∧ bs = Utf8.encode count

/-- Whether bytes end inside a body that was to be longer. -/
def EndsInBody (bs : Bytes) (expected received : Nat) : Prop :=
  ∃ count body, Decimal.Numeral count expected ∧ count.length ≤ 20 ∧ expected < Nat.pow 2 63 ∧
    body.length = received ∧ received < expected ∧ bs = Utf8.encode count ++ space :: body

theorem countChars_of_numeral {count : List Char} {n : Int} (h : Decimal.Numeral count n) :
    CountChars count := by
  cases h with
  | digits _ hdigits => exact .of_digits hdigits
  | minus _ hdigits => exact ⟨.inr rfl, hdigits⟩

/-! ## What becomes of each shape -/

section Shapes

variable {s : Stream} {bs body tail : Bytes}

theorem StartsWithContents.read {t : Stream} (h : StartsWithContents bs body tail)
    (hs : s.Brings bs t) : ∃ s', readContents s = (.ok (some body), s') ∧ s'.Brings tail t := by
  obtain ⟨count, hcount, hlength, hbody, rfl⟩ := h
  have hframe : Frame .contents (Utf8.encode count ++ space :: body) (.contents body) :=
    .contents (countChars_of_numeral hcount) hlength
      (Decimal.int64?_eq_some_iff.mpr ⟨hcount, by omega, by omega⟩)
  exact hframe.read_body (by simpa using hs)

theorem StartsWithAbsence.read {t : Stream} (h : StartsWithAbsence bs tail) (hs : s.Brings bs t) :
    ∃ s', readContents s = (.ok none, s') ∧ s'.Brings tail t := by
  obtain ⟨count, n, hcount, hlength, hlow, hneg, rfl⟩ := h
  obtain ⟨s', hs', hread⟩ := readCount_space (countChars_of_numeral hcount) hlength hs
  have hn : Decimal.int64? count = some n :=
    Decimal.int64?_eq_some_iff.mpr ⟨hcount, hlow, by omega⟩
  obtain ⟨k, rfl⟩ := Int.eq_negSucc_of_lt_zero hneg
  exact ⟨s', by simp [readContents, hread, countOf, hn], hs'⟩

theorem EndsInCount.read {received : Nat} (h : EndsInCount bs received)
    (hs : s.Brings bs (.spent .closed)) :
    readContents s = (.error (.truncated (received + 1) received), .spent .closed) := by
  obtain ⟨count, hcount, rfl, hlength, rfl⟩ := h
  simp [readContents, readCount_cut hcount hlength hs, cutShort]

theorem EndsInBody.read {expected received : Nat} (h : EndsInBody bs expected received)
    (hs : s.Brings bs (.spent .closed)) :
    readContents s = (.error (.truncated expected received), .spent .closed) := by
  obtain ⟨count, body, hcount, hlength, hbits, rfl, hlt, rfl⟩ := h
  obtain ⟨s', hs', hread⟩ := readCount_space (countChars_of_numeral hcount) hlength hs
  have hn : Decimal.int64? count = some (expected : Int) :=
    Decimal.int64?_eq_some_iff.mpr ⟨hcount, by omega, by omega⟩
  simp [readContents, hread, countOf, hn, hs'.readUpTo_short hlt, Stream.atEnd, hlt]

/-! ## There are no others -/

/-- What can become of the next byte of a count: it ends the count, is taken, or is refused. -/
theorem readCountFrom_cons (room : Nat) (header : List Char) {b : UInt8} {t : Stream}
    (hs : s.Brings (b :: bs) t) :
    b = space ∨
      (∃ left c s', room = left + 1 ∧ Continues header c ∧ b = UInt8.ofNat c.toNat ∧
        s'.Brings bs t ∧ readCountFrom room header s = readCountFrom left (c :: header) s') ∨
      ∃ fault s', readCountFrom room header s = (.error (.malformed fault), s') := by
  obtain ⟨s', hread, hs'⟩ := hs.readByte_cons
  by_cases hspace : b = space
  · exact .inl hspace
  rw [readCountFrom, hread]
  simp only [hspace, if_false]
  by_cases hcontinues : continuesCount header b = true
  · have hb : (Char.ofNat b.toNat).toNat = b.toNat :=
      Utf8.toNat_charOfNat_of_lt (toNat_lt_of_continuesCount hcontinues)
    have hbyte : b = UInt8.ofNat (Char.ofNat b.toNat).toNat := by rw [hb, UInt8.ofNat_toNat]
    rw [if_neg (by simp [hcontinues])]
    cases room with
    | zero => exact .inr (.inr ⟨_, s', rfl⟩)
    | succ left =>
        refine .inr (.inl ⟨left, _, s', rfl, ?_, hbyte, hs', rfl⟩)
        have hascii : (Char.ofNat b.toNat).toNat < 0x80 := by
          rw [hb]
          exact toNat_lt_of_continuesCount hcontinues
        rwa [← continuesCount_iff hascii, ← hbyte]
  · rw [if_pos (by simp [hcontinues])]
    exact .inr (.inr ⟨_, s', rfl⟩)

/-- Bytes that a count is to be read from end inside it, have a space behind it, or are refused. -/
theorem readCountFrom_outcomes (room : Nat) {header : List Char} {t : Stream}
    (hheader : CountChars header.reverse) (hs : s.Brings bs t) :
    (∃ cs, cs.length ≤ room ∧ CountChars (header.reverse ++ cs) ∧ bs = Utf8.encode cs) ∨
      (∃ cs tail, cs.length ≤ room ∧ CountChars (header.reverse ++ cs) ∧
        bs = Utf8.encode cs ++ space :: tail) ∨
      ∃ fault s', readCountFrom room header s = (.error (.malformed fault), s') := by
  induction bs generalizing room header s with
  | nil => exact .inl ⟨[], Nat.zero_le _, by simpa using hheader, rfl⟩
  | cons b bs ih =>
      rcases readCountFrom_cons room header hs with rfl |
        ⟨left, c, s', rfl, hc, rfl, hs', hstep⟩ | hfault
      · exact .inr (.inl ⟨[], bs, Nat.zero_le _, by simpa using hheader, rfl⟩)
      · have hheader' : CountChars (c :: header).reverse := by
          rw [List.reverse_cons]
          exact countChars_append_singleton.mpr ⟨hheader, by simpa [Continues] using hc⟩
        have hencode (cs : List Char) :
            Utf8.encode (c :: cs) = UInt8.ofNat c.toNat :: Utf8.encode cs := by
          rw [Utf8.encode_cons, Utf8.encodeChar_ascii hc.toNat_lt]
          rfl
        rw [hstep]
        rcases ih left hheader' hs' with ⟨cs, hroom, hcs, rfl⟩ |
          ⟨cs, tail, hroom, hcs, rfl⟩ | hfault
        · exact .inl ⟨c :: cs, Nat.succ_le_succ hroom, by simpa using hcs, (hencode cs).symm⟩
        · refine .inr (.inl ⟨c :: cs, tail, Nat.succ_le_succ hroom, by simpa using hcs, ?_⟩)
          rw [hencode]
          rfl
        · exact .inr (.inr hfault)
      · exact .inr (.inr hfault)

/-- What reading contents comes to.  All bytes that have none of the four shapes are refused. -/
inductive ContentsOutcome (bs : Bytes) : Except BridgeError (Option Bytes) → Prop where
  | contents {body tail : Bytes} : StartsWithContents bs body tail →
      ContentsOutcome bs (.ok (some body))
  | absence {tail : Bytes} : StartsWithAbsence bs tail → ContentsOutcome bs (.ok none)
  | endsInCount {received : Nat} : EndsInCount bs received →
      ContentsOutcome bs (.error (.truncated (received + 1) received))
  | endsInBody {expected received : Nat} : EndsInBody bs expected received →
      ContentsOutcome bs (.error (.truncated expected received))
  | refused (fault : FrameFault) : ContentsOutcome bs (.error (.malformed fault))

/-- Behind a whole count and a space there is a body, or a part of it, or there are no contents. -/
theorem contentsOutcome_of_count {cs : List Char} (hcs : CountChars cs) (hlength : cs.length ≤ 20)
    (hs : s.Brings (Utf8.encode cs ++ space :: tail) (.spent .closed)) :
    ContentsOutcome (Utf8.encode cs ++ space :: tail) (readContents s).1 := by
  obtain ⟨s', hs', hread⟩ := readCount_space hcs hlength hs
  cases hn : Decimal.int64? cs with
  | none =>
      have hfault : (readContents s).1 = .error (.malformed (.notCount (String.ofList cs))) := by
        simp [readContents, hread, countOf, hn]
      exact hfault ▸ .refused _
  | some n =>
      obtain ⟨hnumeral, hlow, hhigh⟩ := Decimal.int64?_eq_some_iff.mp hn
      cases n with
      | negSucc k =>
          have hshape : StartsWithAbsence (Utf8.encode cs ++ space :: tail) tail :=
            ⟨cs, _, hnumeral, hlength, hlow, Int.negSucc_lt_zero k, rfl⟩
          obtain ⟨s', hresult, -⟩ := hshape.read hs
          exact hresult ▸ .absence hshape
      | ofNat k =>
          rw [Int.ofNat_eq_natCast] at hnumeral hhigh
          by_cases hk : k ≤ tail.length
          · have hbody : (tail.take k).length = k := List.length_take_of_le hk
            have hshape : StartsWithContents (Utf8.encode cs ++ space :: tail) (tail.take k)
                (tail.drop k) := by
              refine ⟨cs, hbody.symm ▸ hnumeral, hlength, by omega, ?_⟩
              rw [List.take_append_drop]
            obtain ⟨s', hresult, -⟩ := hshape.read hs
            exact hresult ▸ .contents hshape
          · have hshape : EndsInBody (Utf8.encode cs ++ space :: tail) k tail.length :=
              ⟨cs, tail, hnumeral, hlength, by omega, rfl, by omega, rfl⟩
            exact hshape.read hs ▸ .endsInBody hshape

theorem contentsOutcome (hs : s.Brings bs (.spent .closed)) :
    ContentsOutcome bs (readContents s).1 := by
  have hnil : CountChars [].reverse := trivial
  rcases readCountFrom_outcomes headerLimit hnil hs with
    ⟨cs, hlength, hcs, rfl⟩ | ⟨cs, tail, hlength, hcs, rfl⟩ | ⟨fault, s', hfault⟩
  · have hshape : EndsInCount (Utf8.encode cs) cs.length := ⟨cs, hcs, rfl, hlength, rfl⟩
    exact hshape.read hs ▸ .endsInCount hshape
  · exact contentsOutcome_of_count hcs hlength hs
  · have hresult : (readContents s).1 = .error (.malformed fault) := by
      rw [readContents, readCount, hfault]
    exact hresult ▸ .refused fault

/-! ## Each result -/

theorem readContents_some_iff (hs : s.Brings bs (.spent .closed)) (body : Bytes) :
    (readContents s).1 = .ok (some body) ↔ ∃ tail, StartsWithContents bs body tail := by
  have houtcome := contentsOutcome hs
  constructor
  · intro h
    rw [h] at houtcome
    cases houtcome with
    | contents hshape => exact ⟨_, hshape⟩
  · rintro ⟨tail, hshape⟩
    obtain ⟨s', hread, -⟩ := hshape.read hs
    rw [hread]

theorem readContents_none_iff (hs : s.Brings bs (.spent .closed)) :
    (readContents s).1 = .ok none ↔ ∃ tail, StartsWithAbsence bs tail := by
  have houtcome := contentsOutcome hs
  constructor
  · intro h
    rw [h] at houtcome
    cases houtcome with
    | absence hshape => exact ⟨_, hshape⟩
  · rintro ⟨tail, hshape⟩
    obtain ⟨s', hread, -⟩ := hshape.read hs
    rw [hread]

theorem readContents_truncated_iff (hs : s.Brings bs (.spent .closed)) (expected received : Nat) :
    (readContents s).1 = .error (.truncated expected received) ↔
      expected = received + 1 ∧ EndsInCount bs received ∨ EndsInBody bs expected received := by
  have houtcome := contentsOutcome hs
  constructor
  · intro h
    rw [h] at houtcome
    cases houtcome with
    | endsInCount hshape => exact .inl ⟨rfl, hshape⟩
    | endsInBody hshape => exact .inr hshape
  · rintro (⟨rfl, hshape⟩ | hshape)
    · rw [hshape.read hs]
    · rw [hshape.read hs]

theorem readContents_malformed_iff (hs : s.Brings bs (.spent .closed)) :
    (∃ fault, (readContents s).1 = .error (.malformed fault)) ↔
      (¬ ∃ body tail, StartsWithContents bs body tail) ∧
        (¬ ∃ tail, StartsWithAbsence bs tail) ∧
        (¬ ∃ received, EndsInCount bs received) ∧
        ¬ ∃ expected received, EndsInBody bs expected received := by
  constructor
  · rintro ⟨fault, hfault⟩
    refine ⟨?_, ?_, ?_, ?_⟩
    · rintro ⟨body, hshape⟩
      cases hfault.symm.trans ((readContents_some_iff hs body).mpr hshape)
    · intro hshape
      cases hfault.symm.trans ((readContents_none_iff hs).mpr hshape)
    · rintro ⟨received, hshape⟩
      cases hfault.symm.trans ((readContents_truncated_iff hs _ _).mpr (.inl ⟨rfl, hshape⟩))
    · rintro ⟨expected, received, hshape⟩
      cases hfault.symm.trans ((readContents_truncated_iff hs _ _).mpr (.inr hshape))
  · rintro ⟨hnocontents, hnoabsence, hnocount, hnobody⟩
    have houtcome := contentsOutcome hs
    generalize (readContents s).1 = result at houtcome
    cases houtcome with
    | contents hshape => exact absurd ⟨_, _, hshape⟩ hnocontents
    | absence hshape => exact absurd ⟨_, hshape⟩ hnoabsence
    | endsInCount hshape => exact absurd ⟨_, hshape⟩ hnocount
    | endsInBody hshape => exact absurd ⟨_, _, hshape⟩ hnobody
    | refused fault => exact ⟨fault, rfl⟩

end Shapes

/-- Contents are read where bytes start with them, and are said to be missing where bytes start with
the sign of it; in both cases nothing that follows is taken.  Bytes that end too early are found to
be cut short, with the numbers of bytes that were to come and have come; and all others are
refused. -/
theorem readContents_outcomes {s : Stream} (hclosed : s.ending = .closed)
    (hretried : ∀ e, .failure e ∈ s.deliveries → Stream.isRetried e = true) :
    (∀ body, (readContents s).1 = .ok (some body) ↔
      ∃ tail, StartsWithContents s.toBytes body tail) ∧
    (∀ body tail, StartsWithContents s.toBytes body tail →
      (readContents s).2.toBytes = tail) ∧
    ((readContents s).1 = .ok none ↔ ∃ tail, StartsWithAbsence s.toBytes tail) ∧
    (∀ tail, StartsWithAbsence s.toBytes tail → (readContents s).2.toBytes = tail) ∧
    (∀ expected received, (readContents s).1 = .error (.truncated expected received) ↔
      expected = received + 1 ∧ EndsInCount s.toBytes received ∨
        EndsInBody s.toBytes expected received) ∧
    ((∃ fault, (readContents s).1 = .error (.malformed fault)) ↔
      (¬ ∃ body tail, StartsWithContents s.toBytes body tail) ∧
        (¬ ∃ tail, StartsWithAbsence s.toBytes tail) ∧
        (¬ ∃ received, EndsInCount s.toBytes received) ∧
        ¬ ∃ expected received, EndsInBody s.toBytes expected received) := by
  obtain ⟨deliveries, ending⟩ := s
  obtain rfl : ending = .closed := hclosed
  have hs := Stream.Brings.of_retried hretried .closed
  refine ⟨readContents_some_iff hs, ?_, readContents_none_iff hs, ?_,
    readContents_truncated_iff hs, readContents_malformed_iff hs⟩
  · intro body tail hshape
    obtain ⟨s', hread, hrest⟩ := hshape.read hs
    rw [hread, hrest.toBytes_eq]
    exact List.append_nil tail
  · intro tail hshape
    obtain ⟨s', hread, hrest⟩ := hshape.read hs
    rw [hread, hrest.toBytes_eq]
    exact List.append_nil tail

/-- Nothing, with a minus sign and a zero too many, in portions with an interruption between them,
and a byte behind it. -/
theorem readContents_outcomes_minusZero :
    let s : Stream :=
      ⟨[.bytes [0x2d], .failure ⟨.interrupted, "again"⟩, .bytes [0x30, 0x30, 0x20, 0x0a]], .closed⟩
    s.ending = .closed ∧ (∀ e, .failure e ∈ s.deliveries → Stream.isRetried e = true) ∧
      (readContents s).1 = .ok (some []) ∧ (readContents s).2.toBytes = [0x0a] := by
  intro s
  have hretried : ∀ e, .failure e ∈ s.deliveries → Stream.isRetried e = true := by
    intro e he
    obtain rfl : e = ⟨.interrupted, "again"⟩ := by simpa [s] using he
    rfl
  have hzeros : Decimal.Numeral ['-', '0', '0'] (0 : Nat) :=
    @Decimal.Numeral.minus ['0', '0'] (by decide) (by decide)
  have hstarts : StartsWithContents s.toBytes [] [0x0a] :=
    ⟨['-', '0', '0'], hzeros, by decide, by decide, by decide⟩
  have h := readContents_outcomes (s := s) rfl hretried
  exact ⟨rfl, hretried, (h.1 []).mpr ⟨_, hstarts⟩, h.2.1 _ _ hstarts⟩

end PipedCompiler.Bridge
