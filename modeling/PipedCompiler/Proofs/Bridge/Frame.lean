import PipedCompiler.Bridge.Response
import PipedCompiler.Proofs.Bridge.Stream
import PipedCompiler.Proofs.Text.Decimal
import PipedCompiler.Proofs.Text.Utf8

/-!
# Frames

`Frame kind f r` says which bytes `f` a response `r` to a request of some kind can have on the wire.
Counts may be written in more ways than one, so a response can have several frames;
`Response.encode` gives one of them.

Reading is tied to frames in three ways.

* `Frame.read`: a frame is read as its response, and nothing behind it is touched.
* `Frame.read_cut`: a frame that is cut off anywhere makes the reading fail where the stream ends.
* `frame_of_read`: whatever has been read was a frame, and no more than that has been taken.

The first two are then carried from one response to many.
-/

namespace PipedCompiler.Bridge

open PipedCompiler.Text

/-! ## The characters of a count -/

/-- Whether a count that starts with these characters may go on with this one. -/
def Continues (header : List Char) (c : Char) : Prop :=
  c.isDigit = true ∨ c = '-' ∧ header = []

/-- The characters of a count: digits, but for a minus sign in front. -/
def CountChars : List Char → Prop
  | [] => True
  | c :: cs => (c.isDigit = true ∨ c = '-') ∧ ∀ d ∈ cs, d.isDigit = true

theorem countChars_append_singleton {cs : List Char} {c : Char} :
    CountChars (cs ++ [c]) ↔ CountChars cs ∧ Continues cs c := by
  cases cs with
  | nil => simp [CountChars, Continues]
  | cons d ds => simp [CountChars, Continues, or_imp, forall_and, and_assoc]

theorem CountChars.left {cs ds : List Char} (h : CountChars (cs ++ ds)) : CountChars cs := by
  cases cs with
  | nil => trivial
  | cons c cs => exact ⟨h.1, fun d hd ↦ h.2 d (List.mem_append_left _ hd)⟩

theorem CountChars.of_digits {cs : List Char} (h : ∀ c ∈ cs, c.isDigit = true) :
    CountChars cs := by
  cases cs with
  | nil => trivial
  | cons c cs =>
      exact ⟨.inl (h c List.mem_cons_self), fun d hd ↦ h d (List.mem_cons_of_mem c hd)⟩

theorem isDigit_iff {c : Char} : c.isDigit = true ↔ 48 ≤ c.toNat ∧ c.toNat ≤ 57 := by
  simp only [Char.isDigit, Bool.and_eq_true, decide_eq_true_eq, ge_iff_le, UInt32.le_iff_toNat_le]
  rfl

theorem Continues.toNat_lt {header : List Char} {c : Char} (h : Continues header c) :
    c.toNat < 0x80 := by
  rcases h with hdigit | ⟨rfl, -⟩
  · have := isDigit_iff.mp hdigit
    omega
  · decide

/-- The test that is made of every byte of a count. -/
theorem continuesCount_iff {header : List Char} {c : Char} (hc : c.toNat < 0x80) :
    continuesCount header (UInt8.ofNat c.toNat) = true ↔ Continues header c := by
  have hnat : (UInt8.ofNat c.toNat).toNat = c.toNat := Utf8.toNat_ofNat_of_lt (by omega)
  have hminus : UInt8.ofNat c.toNat = 0x2d ↔ c = '-' := by
    rw [← UInt8.toNat_inj, hnat, Char.ext_iff, ← UInt32.toNat_inj]
    rfl
  simp only [continuesCount, Bool.or_eq_true, Bool.and_eq_true, decide_eq_true_eq,
    UInt8.le_iff_toNat_le, hnat, hminus, List.isEmpty_iff]
  rw [Continues, isDigit_iff]
  rfl

/-- A byte that a count may go on with stands for an ASCII character. -/
theorem toNat_lt_of_continuesCount {header : List Char} {b : UInt8}
    (h : continuesCount header b = true) : b.toNat < 0x80 := by
  simp only [continuesCount, Bool.or_eq_true, Bool.and_eq_true, decide_eq_true_eq,
    UInt8.le_iff_toNat_le] at h
  rcases h with ⟨-, h⟩ | ⟨rfl, -⟩
  · exact Nat.lt_of_le_of_lt h (by decide)
  · decide

/-! ## Reading a count -/

section Count

variable {s t : Stream} {tail : Bytes} {header : List Char}

theorem readCountFrom_continues {c : Char} (hc : Continues header c) (room : Nat)
    (h : s.Brings (UInt8.ofNat c.toNat :: tail) t) :
    ∃ s', s'.Brings tail t ∧
      readCountFrom (room + 1) header s = readCountFrom room (c :: header) s' := by
  obtain ⟨s', hread, hs'⟩ := h.readByte_cons
  refine ⟨s', hs', ?_⟩
  have hnat : (UInt8.ofNat c.toNat).toNat = c.toNat :=
    Utf8.toNat_ofNat_of_lt (Nat.lt_trans hc.toNat_lt (by decide))
  have hspace : UInt8.ofNat c.toNat ≠ space := by
    intro heq
    have h32 : c.toNat = 32 := by rw [← hnat, heq]; rfl
    rcases hc with hdigit | ⟨rfl, -⟩
    · have := isDigit_iff.mp hdigit
      omega
    · exact absurd h32 (by decide)
  have hcontinues : continuesCount header (UInt8.ofNat c.toNat) = true :=
    (continuesCount_iff hc.toNat_lt).mpr hc
  rw [readCountFrom, hread]
  simp only [hspace, if_false, hcontinues, Bool.not_true, Bool.false_eq_true, hnat,
    Char.ofNat_toNat]

/-- The characters of a count are taken one by one. -/
theorem readCountFrom_encode {cs : List Char} (hcs : CountChars (header.reverse ++ cs))
    (room : Nat) (h : s.Brings (Utf8.encode cs ++ tail) t) :
    ∃ s', s'.Brings tail t ∧ readCountFrom (room + cs.length) header s =
      readCountFrom room (cs.reverse ++ header) s' := by
  induction cs generalizing header s with
  | nil => exact ⟨s, h, rfl⟩
  | cons c cs ih =>
      have hsplit : header.reverse ++ c :: cs = header.reverse ++ [c] ++ cs := by simp
      rw [hsplit] at hcs
      have hc : Continues header c := by
        have := (countChars_append_singleton.mp hcs.left).2
        simpa [Continues] using this
      rw [Utf8.encode_cons, Utf8.encodeChar_ascii hc.toNat_lt] at h
      obtain ⟨s₁, hs₁, hstep⟩ := readCountFrom_continues hc (room + cs.length) h
      have hcs' : CountChars ((c :: header).reverse ++ cs) := by simpa using hcs
      obtain ⟨s₂, hs₂, hrest⟩ := ih hcs' hs₁
      refine ⟨s₂, hs₂, ?_⟩
      rw [List.length_cons, ← Nat.add_assoc, hstep, hrest]
      simp

theorem readCount_encode {cs : List Char} (hcs : CountChars cs) (hlength : cs.length ≤ headerLimit)
    (h : s.Brings (Utf8.encode cs ++ tail) t) :
    ∃ s', s'.Brings tail t ∧
      readCount s = readCountFrom (headerLimit - cs.length) cs.reverse s' := by
  obtain ⟨s', hs', hread⟩ :=
    readCountFrom_encode (show CountChars ([].reverse ++ cs) from hcs) (headerLimit - cs.length) h
  refine ⟨s', hs', ?_⟩
  rw [Nat.sub_add_cancel hlength] at hread
  simpa [readCount] using hread

/-- A space ends a count. -/
theorem readCountFrom_space (room : Nat) (h : s.Brings (space :: tail) t) :
    ∃ s', s'.Brings tail t ∧ readCountFrom room header s = (countOf header.reverse, s') := by
  obtain ⟨s', hread, hs'⟩ := h.readByte_cons
  refine ⟨s', hs', ?_⟩
  rw [readCountFrom, hread]
  simp

/-- A whole count is read as the number that it stands for. -/
theorem readCount_space {cs : List Char} (hcs : CountChars cs) (hlength : cs.length ≤ headerLimit)
    (h : s.Brings (Utf8.encode cs ++ space :: tail) t) :
    ∃ s', s'.Brings tail t ∧ readCount s = (countOf cs, s') := by
  obtain ⟨s₁, hs₁, hcount⟩ := readCount_encode hcs hlength h
  obtain ⟨s₂, hs₂, hspace⟩ : ∃ s', s'.Brings tail t ∧
      readCountFrom (headerLimit - cs.length) cs.reverse s₁ = (countOf cs.reverse.reverse, s') :=
    readCountFrom_space _ hs₁
  exact ⟨s₂, hs₂, by rw [hcount, hspace, List.reverse_reverse]⟩

end Count

/-! ## Frames of responses -/

/-- The bytes that a response to a request of a kind can have on the wire. -/
inductive Frame : RequestKind → Bytes → Response → Prop where
  | contents {count : List Char} {body : Bytes} : CountChars count → count.length ≤ headerLimit →
      Decimal.int64? count = some (body.length : Int) →
      Frame .contents (Utf8.encode count ++ space :: body) (.contents body)
  | notFound {count : List Char} {n : Nat} : CountChars count → count.length ≤ headerLimit →
      Decimal.int64? count = some (Int.negSucc n) →
      Frame .contents (Utf8.encode count ++ [space]) .notFound
  | presence (found : Bool) : Frame .presence [if found then 0x31 else 0x30] (.presence found)

/-- The kind of request that a response answers. -/
def Response.kind : Response → RequestKind
  | .contents _ => .contents
  | .notFound => .contents
  | .presence _ => .presence

/-- Whether the bytes of a response can be counted in 63 bits. -/
def Response.Countable : Response → Prop
  | .contents bs => bs.length < Nat.pow 2 63
  | .notFound => True
  | .presence _ => True

/-- What is sent for a response is one of its frames. -/
theorem frame_encode {r : Response} (hr : r.Countable) : Frame r.kind r.encode r := by
  cases r with
  | contents bs =>
      refine .contents (.of_digits fun _ hc ↦ Decimal.isDigit_of_mem_digits hc) ?_
        (Decimal.int64?_digits hr)
      exact Decimal.length_digits_le (by decide)
        (Nat.lt_trans (show bs.length < Nat.pow 2 63 from hr) (by decide))
  | notFound =>
      have hchars : CountChars ['-', '1'] :=
        ⟨.inr rfl, List.forall_mem_singleton.mpr rfl⟩
      have hcount : Decimal.int64? ['-', '1'] = some (Int.negSucc 0) := rfl
      exact .notFound hchars (by decide) hcount
  | presence found =>
      cases found with
      | true => exact .presence true
      | false => exact .presence false

theorem Frame.ne_nil {kind : RequestKind} {f : Bytes} {r : Response} (h : Frame kind f r) :
    f ≠ [] := by
  cases h <;> simp

section Reading

variable {kind : RequestKind} {s t : Stream} {f tail : Bytes} {r : Response}

/-- A frame is read as its response, and what follows it is left. -/
theorem Frame.read (hf : Frame kind f r) (h : s.Brings (f ++ tail) t) :
    ∃ s', Response.read kind s = (.ok r, s') ∧ s'.Brings tail t := by
  cases hf with
  | @contents count body hchars hlength hcount =>
      rw [List.append_assoc, List.cons_append] at h
      obtain ⟨s₁, hs₁, hread⟩ := readCount_space hchars hlength h
      obtain ⟨s₂, hbody, hs₂⟩ := hs₁.readUpTo_append
      refine ⟨s₂, ?_, hs₂⟩
      simp [Response.read, readContents, hread, countOf, hcount, hbody, Response.ofContents]
  | @notFound count n hchars hlength hcount =>
      rw [List.append_assoc, List.cons_append, List.nil_append] at h
      obtain ⟨s₁, hs₁, hread⟩ := readCount_space hchars hlength h
      refine ⟨s₁, ?_, hs₁⟩
      simp [Response.read, readContents, hread, countOf, hcount, Response.ofContents]
  | presence found =>
      obtain ⟨s₁, hread, hs₁⟩ := h.readByte_cons
      refine ⟨s₁, ?_, hs₁⟩
      cases found <;> simp [Response.read, readPresence, hread]

theorem Frame.read_body {body : Bytes} (hf : Frame .contents f (.contents body))
    (h : s.Brings (f ++ tail) t) :
    ∃ s', readContents s = (.ok (some body), s') ∧ s'.Brings tail t := by
  obtain ⟨s', hread, hs'⟩ := hf.read h
  refine ⟨s', ?_, hs'⟩
  rw [Response.read] at hread
  rcases hcontents : readContents s with ⟨result, s₁⟩
  rw [hcontents] at hread
  rcases result with e | _ | found
  · cases hread
  · cases hread
  · cases hread
    rfl

/-! ## Frames that are cut off -/

/-- The failure of a reading that meets the end of the stream inside a frame. -/
def cutShort (expected received : Nat) : Ending → BridgeError
  | .closed => .truncated expected received
  | .silent => .readFailed Stream.silence

theorem readCountFrom_spent {ending : Ending} {header : List Char} (room : Nat)
    (h : s.Brings [] (.spent ending)) :
    readCountFrom room header s =
      (.error (cutShort (header.length + 1) header.length ending), .spent ending) := by
  rw [readCountFrom, h.readByte_nil, Stream.readByte_spent]
  cases ending <;> rfl

theorem readCount_cut {ending : Ending} {cs : List Char} (hcs : CountChars cs)
    (hlength : cs.length ≤ headerLimit) (h : s.Brings (Utf8.encode cs) (.spent ending)) :
    readCount s = (.error (cutShort (cs.length + 1) cs.length ending), .spent ending) := by
  rw [← List.append_nil (Utf8.encode cs)] at h
  obtain ⟨s', hs', hread⟩ := readCount_encode hcs hlength h
  rw [hread, readCountFrom_spent _ hs', List.length_reverse]

theorem CountChars.toNat_lt {cs : List Char} (h : CountChars cs) {c : Char} (hc : c ∈ cs) :
    c.toNat < 0x80 := by
  obtain ⟨before, after, rfl⟩ := List.append_of_mem hc
  rw [← List.singleton_append, ← List.append_assoc] at h
  exact (countChars_append_singleton.mp h.left).2.toNat_lt

/-- Where bytes that start with a count can be cut off: among the characters of the count, or behind
the space. -/
theorem prefix_count_cases {count : List Char} (hcount : CountChars count) {body p : Bytes}
    (hp : p <+: Utf8.encode count ++ space :: body) :
    (∃ cs, cs <+: count ∧ p = Utf8.encode cs) ∨
      ∃ q, q <+: body ∧ p = Utf8.encode count ++ space :: q := by
  rcases List.prefix_or_prefix_of_prefix hp (List.prefix_append _ _) with hshort | ⟨q, rfl⟩
  · exact .inl (Utf8.exists_of_prefix_encode (fun _ hc ↦ hcount.toNat_lt hc) hshort)
  · rw [List.prefix_append_right_inj] at hp
    rcases List.prefix_cons_iff.mp hp with rfl | ⟨q, rfl, hq⟩
    · exact .inl ⟨count, List.prefix_rfl, List.append_nil _⟩
    · exact .inr ⟨q, hq, rfl⟩

theorem CountChars.of_prefix {cs count : List Char} (h : CountChars count) (hcs : cs <+: count) :
    CountChars cs := by
  obtain ⟨rest, rfl⟩ := hcs
  exact h.left

/-- Reading a frame that is cut off fails where the stream ends. -/
theorem Frame.read_cut {ending : Ending} {p : Bytes} (hf : Frame kind f r) (hp : p <+: f)
    (hne : p ≠ f) (h : s.Brings p (.spent ending)) :
    ∃ expected received, received < expected ∧
      Response.read kind s = (.error (cutShort expected received ending), .spent ending) := by
  cases hf with
  | @contents count body hchars hlength hcount =>
      rcases prefix_count_cases hchars hp with ⟨cs, hcs, rfl⟩ | ⟨q, hq, rfl⟩
      · have hread := readCount_cut (hchars.of_prefix hcs) (Nat.le_trans hcs.length_le hlength) h
        exact ⟨_, _, Nat.lt_succ_self cs.length, by simp [Response.read, readContents, hread]⟩
      · have hlt : q.length < body.length := by
          refine Nat.lt_of_le_of_ne hq.length_le fun hlen ↦ hne ?_
          rw [hq.eq_of_length hlen]
        obtain ⟨s₁, hs₁, hread⟩ := readCount_space hchars hlength h
        have hbody := hs₁.readUpTo_short hlt
        refine ⟨_, _, hlt, ?_⟩
        cases ending <;>
          simp [Response.read, readContents, hread, countOf, hcount, hbody, Stream.atEnd, hlt,
            cutShort]
  | @notFound count n hchars hlength hcount =>
      rcases prefix_count_cases hchars hp with ⟨cs, hcs, rfl⟩ | ⟨q, hq, rfl⟩
      · have hread := readCount_cut (hchars.of_prefix hcs) (Nat.le_trans hcs.length_le hlength) h
        exact ⟨_, _, Nat.lt_succ_self cs.length, by simp [Response.read, readContents, hread]⟩
      · exact absurd (by rw [List.prefix_nil.mp hq]) hne
  | presence found =>
      rcases List.prefix_cons_iff.mp hp with rfl | ⟨q, rfl, hq⟩
      · refine ⟨1, 0, Nat.zero_lt_one, ?_⟩
        rw [Response.read, readPresence, h.readByte_nil, Stream.readByte_spent]
        cases ending <;> rfl
      · exact absurd (by rw [List.prefix_nil.mp hq]) hne

end Reading

/-! ## What has been read

Here streams may fail anywhere. -/

/-- The two ways in which reading a count can go on well: the space comes, or one more character. -/
theorem readCountFrom_ok {room : Nat} {header : List Char} {s s' : Stream} {n : Int}
    (h : readCountFrom room header s = (.ok n, s')) :
    (s.toBytes = space :: s'.toBytes ∧ countOf header.reverse = .ok n) ∨
      ∃ left c s₁, room = left + 1 ∧ Continues header c ∧
        s.toBytes = UInt8.ofNat c.toNat :: s₁.toBytes ∧
        readCountFrom left (c :: header) s₁ = (.ok n, s') := by
  rw [readCountFrom] at h
  split at h
  · simp at h
  · simp at h
  next b s₁ hread =>
  have hbytes := Stream.toBytes_of_readByte hread
  split at h
  · next hspace =>
    obtain ⟨hcount, rfl⟩ := Prod.mk.inj h
    exact .inl ⟨hspace ▸ hbytes, hcount⟩
  split at h
  · simp at h
  next hcontinues =>
  have hb : b.toNat < 0x80 := toNat_lt_of_continuesCount (by simpa using hcontinues)
  have hchar : (Char.ofNat b.toNat).toNat = b.toNat := Utf8.toNat_charOfNat_of_lt hb
  have hbyte : UInt8.ofNat (Char.ofNat b.toNat).toNat = b := by
    rw [hchar, UInt8.ofNat_toNat]
  cases room with
  | zero => simp at h
  | succ left =>
      refine .inr ⟨left, Char.ofNat b.toNat, s₁, rfl, ?_, hbyte.symm ▸ hbytes, h⟩
      rw [← continuesCount_iff (by omega), hbyte]
      simpa using hcontinues

/-- A count that has been read was a count, with a space behind it. -/
theorem countChars_of_readCountFrom {room : Nat} {header : List Char} {s s' : Stream} {n : Int}
    (hheader : CountChars header.reverse) (h : readCountFrom room header s = (.ok n, s')) :
    ∃ cs, cs.length ≤ room ∧ CountChars (header.reverse ++ cs) ∧
      countOf (header.reverse ++ cs) = .ok n ∧
      s.toBytes = Utf8.encode cs ++ space :: s'.toBytes := by
  induction room generalizing header s with
  | zero =>
      rcases readCountFrom_ok h with ⟨hbytes, hcount⟩ | ⟨left, _, _, hroom, -⟩
      · exact ⟨[], Nat.le_refl 0, by simpa using hheader, by simpa using hcount, hbytes⟩
      · cases hroom
  | succ room ih =>
      rcases readCountFrom_ok h with ⟨hbytes, hcount⟩ | ⟨left, c, s₁, hroom, hc, hbytes, hrest⟩
      · exact ⟨[], Nat.zero_le _, by simpa using hheader, by simpa using hcount, hbytes⟩
      · cases hroom
        have hheader' : CountChars (c :: header).reverse := by
          rw [List.reverse_cons]
          exact countChars_append_singleton.mpr ⟨hheader, by simpa [Continues] using hc⟩
        obtain ⟨cs, hlength, hchars, hcount, hs₁⟩ := ih hheader' hrest
        refine ⟨c :: cs, Nat.succ_le_succ hlength, by simpa using hchars, by simpa using hcount, ?_⟩
        rw [hbytes, hs₁, Utf8.encode_cons, Utf8.encodeChar_ascii hc.toNat_lt]
        rfl

theorem countChars_of_readCount {s s' : Stream} {n : Int} (h : readCount s = (.ok n, s')) :
    ∃ cs, CountChars cs ∧ cs.length ≤ headerLimit ∧ Decimal.int64? cs = some n ∧
      s.toBytes = Utf8.encode cs ++ space :: s'.toBytes := by
  obtain ⟨cs, hlength, hchars, hcount, hbytes⟩ :=
    countChars_of_readCountFrom (show CountChars [].reverse from trivial) h
  refine ⟨cs, hchars, hlength, ?_, hbytes⟩
  simp only [List.reverse_nil, List.nil_append, countOf] at hcount
  split at hcount
  · next m hm => rw [hm, Except.ok.inj hcount]
  · cases hcount

/-- A response that has been read had a frame, which is all that has been taken. -/
theorem frame_of_read {kind : RequestKind} {s s' : Stream} {r : Response}
    (h : Response.read kind s = (.ok r, s')) :
    ∃ f, Frame kind f r ∧ s.toBytes = f ++ s'.toBytes := by
  cases kind with
  | contents =>
      simp only [Response.read, readContents] at h
      split at h
      · simp at h
      next body s₁ hread =>
      obtain ⟨hr, rfl⟩ := Prod.mk.inj h
      obtain rfl := Except.ok.inj hr
      split at hread
      · simp at hread
      · next n s₁ hcount =>
        obtain ⟨hbody, rfl⟩ := Prod.mk.inj hread
        obtain rfl := Except.ok.inj hbody
        obtain ⟨cs, hchars, hlength, hn, hbytes⟩ := countChars_of_readCount hcount
        exact ⟨_, .notFound hchars hlength hn, by rw [hbytes]; simp⟩
      · next n s₁ hcount =>
        obtain ⟨cs, hchars, hlength, hn, hbytes⟩ := countChars_of_readCount hcount
        split at hread
        · simp at hread
        next bs s₂ hupto =>
        obtain ⟨hle, hbytes₁⟩ := Stream.toBytes_of_readUpTo hupto
        split at hread
        · simp at hread
        next hlt =>
        obtain ⟨hbody, rfl⟩ := Prod.mk.inj hread
        obtain rfl := Except.ok.inj hbody
        obtain rfl : n = bs.length := by omega
        exact ⟨_, .contents hchars hlength hn, by rw [hbytes, hbytes₁]; simp⟩
  | presence =>
      simp only [Response.read, readPresence] at h
      split at h
      · simp at h
      next found s₁ hread =>
      obtain ⟨hr, rfl⟩ := Prod.mk.inj h
      obtain rfl := Except.ok.inj hr
      split at hread
      · simp at hread
      · simp at hread
      next b s₂ hbyte =>
      have hbytes := Stream.toBytes_of_readByte hbyte
      split at hread
      · next hone =>
        obtain ⟨hfound, rfl⟩ := Prod.mk.inj hread
        obtain rfl := Except.ok.inj hfound
        exact ⟨_, .presence true, by rw [hbytes, hone]; rfl⟩
      split at hread
      · next hzero =>
        obtain ⟨hfound, rfl⟩ := Prod.mk.inj hread
        obtain rfl := Except.ok.inj hfound
        exact ⟨_, .presence false, by rw [hbytes, hzero]; rfl⟩
      · simp at hread

/-! ## What has been sent

A count that is too large to be read may be sent; then nothing that is sent with it has a frame. -/

theorem CountChars.space_notMem {cs : List Char} (h : CountChars cs) :
    space ∉ Utf8.encode cs := by
  intro hspace
  have hmem : ' ' ∈ cs := (Utf8.ofNat_mem_encode_iff (c := ' ') (by decide)).mp hspace
  obtain ⟨before, after, rfl⟩ := List.append_of_mem hmem
  rw [← List.singleton_append, ← List.append_assoc] at h
  have hcontinues : Continues before ' ' := (countChars_append_singleton.mp h.left).2
  rcases hcontinues with hdigit | ⟨hminus, -⟩
  · exact absurd hdigit (by decide)
  · exact absurd hminus (by decide)

/-- A count ends at the first space. -/
theorem CountChars.eq_of_append {cs ds : List Char} (hcs : CountChars cs) (hds : CountChars ds)
    {bs bs' : Bytes} (h : Utf8.encode cs ++ space :: bs = Utf8.encode ds ++ space :: bs') :
    cs = ds ∧ bs = bs' := by
  rcases List.append_eq_append_iff.mp h with
    ⟨_ | ⟨b, more⟩, hcount, hbody⟩ | ⟨_ | ⟨b, more⟩, hcount, hbody⟩
  · exact ⟨Utf8.encode_injective (by simpa using hcount.symm), (List.cons.inj hbody).2⟩
  · obtain ⟨rfl, -⟩ := List.cons.inj hbody
    exact absurd (by simp [hcount]) hds.space_notMem
  · exact ⟨Utf8.encode_injective (by simpa using hcount), (List.cons.inj hbody).2.symm⟩
  · obtain ⟨rfl, -⟩ := List.cons.inj hbody
    exact absurd (by simp [hcount]) hcs.space_notMem

/-- If what is sent for a response starts with a frame, it is a frame of that response. -/
theorem Frame.eq_of_encode {f tail : Bytes} {r r' : Response} (hf : Frame r'.kind f r)
    (h : r'.encode = f ++ tail) : r = r' ∧ tail = [] := by
  have hdigits (n : Nat) : CountChars (Decimal.digits n) :=
    .of_digits fun _ hc ↦ Decimal.isDigit_of_mem_digits hc
  have hminus : CountChars ['-', '1'] := ⟨.inr rfl, List.forall_mem_singleton.mpr rfl⟩
  cases r' with
  | contents bs =>
      rw [Response.encode, Response.contentsFrame] at h
      cases hf with
      | @contents count body hchars _ hcount =>
          rw [List.append_assoc, List.cons_append] at h
          obtain ⟨rfl, rfl⟩ := (hdigits _).eq_of_append hchars h
          have hlength := Decimal.eq_of_int64?_digits hcount
          rw [List.length_append] at hlength
          obtain rfl : tail = [] := List.eq_nil_of_length_eq_zero (by omega)
          exact ⟨by rw [List.append_nil], rfl⟩
      | notFound hchars _ hcount =>
          rw [List.append_assoc, List.singleton_append] at h
          obtain ⟨rfl, -⟩ := (hdigits _).eq_of_append hchars h
          cases Decimal.eq_of_int64?_digits hcount
  | notFound =>
      have hsent : Response.notFound.encode = Utf8.encode ['-', '1'] ++ space :: [] := rfl
      rw [hsent] at h
      cases hf with
      | contents hchars _ hcount =>
          rw [List.append_assoc, List.cons_append] at h
          obtain ⟨rfl, -⟩ := hminus.eq_of_append hchars h
          cases hcount
      | notFound hchars _ _ =>
          rw [List.append_assoc, List.singleton_append] at h
          obtain ⟨-, rfl⟩ := hminus.eq_of_append hchars h
          exact ⟨rfl, rfl⟩
  | presence found =>
      cases hf with
      | presence found' =>
          obtain ⟨hbyte, rfl⟩ : (if found then (0x31 : UInt8) else 0x30) =
              (if found' then 0x31 else 0x30) ∧ [] = tail := by
            cases found <;> exact List.cons.inj h
          revert hbyte
          cases found <;> cases found' <;> decide

/-! ## Many responses -/

/-- Reads responses one after the other, up to the first failure. -/
def Response.readMany :
    List RequestKind → Stream → List Response × Option BridgeError × Stream
  | [], s => ([], none, s)
  | kind :: kinds, s =>
    match Response.read kind s with
    | (.error e, s) => ([], some e, s)
    | (.ok r, s) =>
      let (rs, failure, s) := readMany kinds s
      (r :: rs, failure, s)

/-- The frames of responses, one behind the other. -/
def frames (rs : List Response) : Bytes :=
  rs.flatMap Response.encode

@[simp] theorem frames_nil : frames [] = [] := rfl

@[simp] theorem frames_cons (r : Response) (rs : List Response) :
    frames (r :: rs) = r.encode ++ frames rs := rfl

theorem readMany_frames {rs : List Response} (hrs : ∀ r ∈ rs, r.Countable) {s t : Stream}
    {tail : Bytes} (h : s.Brings (frames rs ++ tail) t) :
    ∃ s', Response.readMany (rs.map Response.kind) s = (rs, none, s') ∧ s'.Brings tail t := by
  induction rs generalizing s with
  | nil => exact ⟨s, rfl, h⟩
  | cons r rs ih =>
      rw [frames_cons, List.append_assoc] at h
      obtain ⟨s₁, hread, hs₁⟩ := (frame_encode (hrs r List.mem_cons_self)).read h
      obtain ⟨s₂, hmany, hs₂⟩ := ih (fun r' hr' ↦ hrs r' (List.mem_cons_of_mem r hr')) hs₁
      exact ⟨s₂, by simp [Response.readMany, hread, hmany], hs₂⟩

/-- Frames that are cut off are read as far as they are whole. -/
theorem readMany_frames_cut {rs : List Response} (hrs : ∀ r ∈ rs, r.Countable) {p : Bytes}
    (hp : p <+: frames rs) (hne : p ≠ frames rs) {s : Stream}
    (h : s.Brings p (.spent .closed)) :
    ∃ whole r cut, rs = whole ++ r :: cut ∧ frames whole <+: p ∧
      p.length < (frames whole ++ r.encode).length ∧
      ∃ expected received, received < expected ∧
        Response.readMany (rs.map Response.kind) s =
          (whole, some (.truncated expected received), .spent .closed) := by
  induction rs generalizing p s with
  | nil => exact absurd (List.prefix_nil.mp hp) hne
  | cons r rs ih =>
      have hframe := frame_encode (hrs r List.mem_cons_self)
      rw [frames_cons] at hp hne
      by_cases hshort : p <+: r.encode ∧ p ≠ r.encode
      · obtain ⟨hpre, hcut⟩ := hshort
        obtain ⟨expected, received, hlt, hread⟩ := hframe.read_cut hpre hcut h
        refine ⟨[], r, rs, rfl, List.nil_prefix, ?_, expected, received, hlt, ?_⟩
        · exact Nat.lt_of_le_of_ne hpre.length_le fun hlen ↦ hcut (hpre.eq_of_length hlen)
        · simp [Response.readMany, hread, cutShort]
      · obtain ⟨q, rfl⟩ : r.encode <+: p := by
          rcases List.prefix_or_prefix_of_prefix hp (List.prefix_append _ _) with hpre | hpre
          · by_cases heq : p = r.encode
            · exact heq ▸ List.prefix_rfl
            · exact absurd ⟨hpre, heq⟩ hshort
          · exact hpre
        obtain ⟨s₁, hread, hs₁⟩ := hframe.read h
        obtain ⟨whole, r', cut, rfl, hwhole, hlength, expected, received, hlt, hmany⟩ :=
          ih (fun r' hr' ↦ hrs r' (List.mem_cons_of_mem r hr'))
            ((List.prefix_append_right_inj _).mp hp) (fun heq ↦ hne (by rw [heq])) hs₁
        refine ⟨r :: whole, r', cut, rfl, ?_, ?_, expected, received, hlt, ?_⟩
        · rw [frames_cons]
          exact (List.prefix_append_right_inj _).mpr hwhole
        · rw [frames_cons, List.append_assoc, List.length_append, List.length_append]
          omega
        · rw [List.map_cons]
          simp only [Response.readMany, hread, hmany]

/-- Frames delimit themselves.  Responses are got back from their frames, in any portions, and what
follows is left; and of frames that are cut off anywhere, those that are whole are read, and the
first that is not is found to be cut short. -/
theorem readMany_frames_delimited {rs : List Response} (hrs : ∀ r ∈ rs, r.Countable) :
    (∀ (tail : Bytes) (s t : Stream), s.Brings (frames rs ++ tail) t →
      ∃ s', Response.readMany (rs.map Response.kind) s = (rs, none, s') ∧ s'.Brings tail t) ∧
    ∀ (p : Bytes) (s : Stream), p <+: frames rs → p ≠ frames rs → s.Brings p (.spent .closed) →
      ∃ whole r cut, rs = whole ++ r :: cut ∧ frames whole <+: p ∧
        p.length < (frames whole ++ r.encode).length ∧
        ∃ expected received, received < expected ∧
          Response.readMany (rs.map Response.kind) s =
            (whole, some (.truncated expected received), .spent .closed) := by
  constructor
  · intro tail s t h
    exact readMany_frames hrs h
  · intro p s hp hne h
    exact readMany_frames_cut hrs hp hne h

/-- Two bytes of contents, a missing file and a file that is there: with a byte behind them, and cut
off after the minus sign. -/
theorem readMany_frames_delimited_cutAtMinus :
    (∃ s', Response.readMany [.contents, .contents, .presence]
          (.ofBytes [0x32, 0x20, 0x0a, 0x20, 0x2d, 0x31, 0x20, 0x31, 0x0a]) =
        ([.contents [0x0a, 0x20], .notFound, .presence true], none, s') ∧
      s'.Brings [0x0a] (.spent .closed)) ∧
    ∃ whole r cut,
      [Response.contents [0x0a, 0x20], .notFound, .presence true] = whole ++ r :: cut ∧
      frames whole <+: [0x32, 0x20, 0x0a, 0x20, 0x2d] ∧
      5 < (frames whole ++ r.encode).length ∧
      ∃ expected received, received < expected ∧
        Response.readMany [.contents, .contents, .presence]
            (.ofBytes [0x32, 0x20, 0x0a, 0x20, 0x2d]) =
          (whole, some (.truncated expected received), .spent .closed) := by
  have hrs : ∀ r ∈ [Response.contents [0x0a, 0x20], .notFound, .presence true], r.Countable := by
    simp [Response.Countable]
  have hframes : frames [Response.contents [0x0a, 0x20], .notFound, .presence true] =
      [0x32, 0x20, 0x0a, 0x20, 0x2d, 0x31, 0x20, 0x31] := by decide
  have h := readMany_frames_delimited hrs
  rw [hframes] at h
  exact ⟨h.1 [0x0a] _ _ (.ofBytes _),
    h.2 [0x32, 0x20, 0x0a, 0x20, 0x2d] _ (by decide) (by decide) (.ofBytes _)⟩

end PipedCompiler.Bridge
