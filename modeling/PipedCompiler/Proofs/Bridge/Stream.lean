import PipedCompiler.Bridge.Stream

/-!
# What a stream brings

A reader sees neither portions nor interruptions.  `Brings s bs t` forgets about both: the stream
`s` brings the bytes `bs` and then goes on as `t`.  The rules for reading below are all in these
terms, so that nothing that is built on them can depend on how bytes are cut into portions.

The converses, at the end, are about streams of any kind: bytes that have been read are no longer to
come, and no other bytes are lost.
-/

namespace PipedCompiler.Bridge.Stream

open PipedCompiler.Text

/-- The stream brings some bytes, in any portions and with any interruptions, and then goes on as
another one. -/
inductive Brings : Stream → Bytes → Stream → Prop where
  | nil (s : Stream) : Brings s [] s
  | portion {ds : List Delivery} {ending : Ending} {bs : Bytes} {t : Stream} (cs : Bytes) :
      Brings ⟨ds, ending⟩ bs t → Brings ⟨.bytes cs :: ds, ending⟩ (cs ++ bs) t
  | interruption {ds : List Delivery} {ending : Ending} {bs : Bytes} {t : Stream} {e : IoError} :
      isRetried e = true → Brings ⟨ds, ending⟩ bs t → Brings ⟨.failure e :: ds, ending⟩ bs t

/-- A stream at its end. -/
def spent (ending : Ending) : Stream := ⟨[], ending⟩

/-- What a reading comes to that has so far come to `a` and meets the end of the stream. -/
def atEnd {α : Type} (a : α) : Ending → Except IoError α
  | .closed => .ok a
  | .silent => .error silence

theorem readByte_spent (ending : Ending) :
    (spent ending).readByte = (atEnd none ending, spent ending) := by
  cases ending <;> rfl

namespace Brings

variable {s t u : Stream} {bs cs : Bytes}

theorem trans (h : Brings s bs t) (h' : Brings t cs u) : Brings s (bs ++ cs) u := by
  induction h with
  | nil s => exact h'
  | portion ds _ ih => rw [List.append_assoc]; exact .portion ds (ih h')
  | interruption he _ ih => exact .interruption he (ih h')

/-- More that comes at the end of a stream comes after what the stream brings. -/
theorem append (h : Brings s bs t) (ds : List Delivery) :
    Brings (s.append ds) bs (t.append ds) := by
  induction h with
  | nil s => exact .nil _
  | portion cs _ ih => exact .portion cs ih
  | interruption he _ ih => exact .interruption he ih

theorem toBytes_eq (h : Brings s bs t) : s.toBytes = bs ++ t.toBytes := by
  induction h with
  | nil s => rfl
  | portion cs _ ih => rw [List.append_assoc, ← ih]; rfl
  | interruption _ _ ih => rw [← ih]; rfl

/-- Portions bring their bytes. -/
theorem of_portions (portions : List Bytes) (ending : Ending) :
    Brings ⟨portions.map .bytes, ending⟩ portions.flatten (spent ending) := by
  induction portions with
  | nil => exact .nil _
  | cons p ps ih => exact .portion p ih

/-- A stream whose failures are all tried again brings its bytes. -/
theorem of_retried {ds : List Delivery} (h : ∀ e, .failure e ∈ ds → isRetried e = true)
    (ending : Ending) : Brings ⟨ds, ending⟩ (toBytes ⟨ds, ending⟩) (spent ending) := by
  induction ds with
  | nil => exact .nil _
  | cons d ds ih =>
      have hds := ih fun e he ↦ h e (List.mem_cons_of_mem d he)
      cases d with
      | bytes bs => exact .portion bs hds
      | failure e => exact .interruption (h e List.mem_cons_self) hds

theorem ofBytes (bs : Bytes) : Brings (Stream.ofBytes bs) bs (spent .closed) := by
  simpa [Stream.ofBytes] using of_portions [bs] .closed

/-! ## Reading -/

/-- A byte that is brought can be read. -/
theorem readByte_cons {b : UInt8} (h : Brings s (b :: bs) t) :
    ∃ s', s.readByte = (.ok (some b), s') ∧ Brings s' bs t := by
  generalize hbs : b :: bs = all at h
  induction h with
  | nil s => cases hbs
  | portion cs h ih =>
      cases cs with
      | nil =>
          obtain ⟨s', hread, hs'⟩ := ih hbs
          exact ⟨s', by simpa [readByte, readByteFrom] using hread, hs'⟩
      | cons c cs =>
          obtain ⟨rfl, rfl⟩ := List.cons.inj hbs
          exact ⟨_, rfl, .portion cs h⟩
  | interruption he _ ih =>
      obtain ⟨s', hread, hs'⟩ := ih hbs
      exact ⟨s', by simpa [readByte, readByteFrom, he] using hread, hs'⟩

/-- Where nothing is brought, reading goes on with what comes next. -/
theorem readByte_nil (h : Brings s [] t) : s.readByte = t.readByte := by
  generalize hbs : ([] : Bytes) = all at h
  induction h with
  | nil s => rfl
  | portion cs _ ih =>
      obtain ⟨rfl, rfl⟩ := List.append_eq_nil_iff.mp hbs.symm
      simpa [readByte, readByteFrom] using ih rfl
  | interruption he _ ih => simpa [readByte, readByteFrom, he] using ih hbs

/-- Where a portion ends among bytes that are read: behind them, or at or before their end. -/
private theorem portion_cases {bs cs portion more : Bytes} (h : bs ++ cs = portion ++ more) :
    (∃ rest, rest ≠ [] ∧ portion = bs ++ rest ∧ cs = rest ++ more) ∨
      ∃ rest, bs = portion ++ rest ∧ more = rest ++ cs := by
  rcases List.append_eq_append_iff.mp h with ⟨rest, hportion, hcs⟩ | hbs
  · by_cases hrest : rest = []
    · subst hrest
      exact .inr ⟨[], by simpa using hportion.symm, by simpa using hcs.symm⟩
    · exact .inl ⟨rest, hrest, hportion, hcs⟩
  · exact .inr hbs

/-- Bytes that are brought can be read, with parts that have been read before. -/
theorem readUpToFrom_append (h : Brings s (bs ++ cs) t) (parts : List Bytes) :
    ∃ s', readUpToFrom s.ending bs.length parts s.deliveries =
        (.ok (parts.reverse.flatten ++ bs), s') ∧ Brings s' cs t := by
  generalize hall : bs ++ cs = all at h
  induction h generalizing bs parts with
  | nil s =>
      obtain ⟨rfl, rfl⟩ := List.append_eq_nil_iff.mp hall
      exact ⟨s, by simp [readUpToFrom], .nil s⟩
  | portion portion h ih =>
      cases hbs : bs with
      | nil =>
          refine ⟨_, by rw [List.length_nil, readUpToFrom, List.append_nil], ?_⟩
          rw [hbs, List.nil_append] at hall
          exact hall ▸ .portion portion h
      | cons b bs' =>
          have hlength : bs.length = bs'.length + 1 := by rw [hbs, List.length_cons]
          rw [← hbs, hlength]
          rcases portion_cases hall with ⟨rest, hne, rfl, rfl⟩ | ⟨rest, hrest, rfl⟩
          · refine ⟨_, ?_, .portion rest h⟩
            have hpos : 0 < rest.length := List.length_pos_iff.mpr hne
            rw [readUpToFrom, if_pos (by rw [List.length_append]; omega), ← hlength,
              List.take_left, List.drop_left]
            simp
          · obtain ⟨s', hs', hbrings⟩ := ih (portion :: parts) (show rest ++ cs = rest ++ cs from rfl)
            refine ⟨s', ?_, hbrings⟩
            have hle : ¬ bs'.length + 1 < portion.length := by
              rw [← hlength, hrest, List.length_append]
              omega
            have hleft : bs'.length + 1 - portion.length = rest.length := by
              rw [← hlength, hrest, List.length_append]
              omega
            rw [readUpToFrom, if_neg hle, hleft, hs', hrest]
            simp
  | interruption he h ih =>
      cases bs with
      | nil =>
          refine ⟨_, by rw [List.length_nil, readUpToFrom, List.append_nil], ?_⟩
          rw [List.nil_append] at hall
          exact hall ▸ .interruption he h
      | cons b bs =>
          obtain ⟨s', hs', hbrings⟩ := ih parts hall
          exact ⟨s', by simpa [readUpToFrom, he] using hs', hbrings⟩

/-- Bytes that are brought can be read. -/
theorem readUpTo_append (h : Brings s (bs ++ cs) t) :
    ∃ s', s.readUpTo bs.length = (.ok bs, s') ∧ Brings s' cs t := by
  simpa [readUpTo] using h.readUpToFrom_append []

/-- Of parts that have been read before, only the bytes matter. -/
theorem readUpToFrom_parts (ending : Ending) (n : Nat) (parts : List Bytes) (ds : List Delivery) :
    readUpToFrom ending n parts ds = readUpToFrom ending n [parts.reverse.flatten] ds := by
  induction ds generalizing n parts with
  | nil => cases n <;> cases ending <;> simp [readUpToFrom]
  | cons d ds ih =>
      cases n with
      | zero => simp [readUpToFrom]
      | succ n =>
          cases d with
          | bytes cs =>
              rw [readUpToFrom, readUpToFrom, ih _ (cs :: parts), ih _ [cs, parts.reverse.flatten]]
              simp
          | failure e =>
              rw [readUpToFrom, readUpToFrom, ih]

/-- When more bytes are asked for than are brought, reading goes on with what comes next. -/
theorem readUpToFrom_beyond (h : Brings s bs t) {n : Nat} (hn : bs.length < n)
    (parts : List Bytes) :
    readUpToFrom s.ending n parts s.deliveries =
      readUpToFrom t.ending (n - bs.length) [parts.reverse.flatten ++ bs] t.deliveries := by
  induction h generalizing n parts with
  | nil s =>
      rw [readUpToFrom_parts, List.append_nil]
      rfl
  | @portion _ _ bs _ cs _ ih =>
      rw [List.length_append] at hn
      obtain ⟨n, rfl⟩ : ∃ m, n = m + 1 := ⟨n - 1, by omega⟩
      rw [readUpToFrom, if_neg (by omega), ih (by omega) (cs :: parts), List.length_append,
        Nat.sub_sub]
      simp
  | interruption he _ ih =>
      obtain ⟨n, rfl⟩ : ∃ m, n = m + 1 := ⟨n - 1, by omega⟩
      rw [readUpToFrom, if_pos he]
      exact ih hn parts

/-- Fewer bytes than are asked for are only read when they are all that there is, with parts that
have been read before. -/
theorem readUpToFrom_short {ending : Ending} (h : Brings s bs (spent ending)) {n : Nat}
    (hn : bs.length < n) (parts : List Bytes) :
    readUpToFrom s.ending n parts s.deliveries =
      (atEnd (parts.reverse.flatten ++ bs) ending, spent ending) := by
  obtain ⟨m, hm⟩ : ∃ m, n - bs.length = m + 1 := ⟨n - bs.length - 1, by omega⟩
  rw [h.readUpToFrom_beyond hn parts, hm]
  cases ending <;> simp [spent, readUpToFrom, atEnd]

/-- Fewer bytes than are asked for are only read when they are all that there is. -/
theorem readUpTo_short {ending : Ending} (h : Brings s bs (spent ending)) {n : Nat}
    (hn : bs.length < n) :
    s.readUpTo n = (atEnd bs ending, spent ending) := by
  simpa [readUpTo] using h.readUpToFrom_short hn []

end Brings

/-! ## What reading takes away

Here a stream may fail anywhere. -/

theorem toBytes_of_readByteFrom {ending : Ending} {ds : List Delivery} {b : UInt8} {s : Stream}
    (h : readByteFrom ending ds = (.ok (some b), s)) :
    toBytes ⟨ds, ending⟩ = b :: s.toBytes := by
  induction ds with
  | nil => cases ending <;> simp [readByteFrom] at h
  | cons d ds ih =>
      cases d with
      | bytes bs =>
          cases bs with
          | nil => simpa [toBytes, deliveredBytes] using ih (by simpa [readByteFrom] using h)
          | cons c bs =>
              simp only [readByteFrom, Prod.mk.injEq, Except.ok.injEq, Option.some.injEq] at h
              obtain ⟨rfl, rfl⟩ := h
              rfl
      | failure e =>
          by_cases he : isRetried e = true
          · simpa [toBytes, deliveredBytes] using ih (by simpa [readByteFrom, he] using h)
          · simp [readByteFrom, he] at h

/-- A byte that has been read was the next one. -/
theorem toBytes_of_readByte {s s' : Stream} {b : UInt8}
    (h : s.readByte = (.ok (some b), s')) : s.toBytes = b :: s'.toBytes :=
  toBytes_of_readByteFrom h

theorem toBytes_of_readUpToFrom {ending : Ending} {n : Nat} {parts : List Bytes}
    {ds : List Delivery} {bs : Bytes} {s : Stream}
    (h : readUpToFrom ending n parts ds = (.ok bs, s)) :
    ∃ read, bs = parts.reverse.flatten ++ read ∧ read.length ≤ n ∧
      toBytes ⟨ds, ending⟩ = read ++ s.toBytes := by
  induction ds generalizing n parts with
  | nil =>
      refine ⟨[], ?_⟩
      cases n with
      | zero =>
          simp only [readUpToFrom, Prod.mk.injEq, Except.ok.injEq] at h
          obtain ⟨rfl, rfl⟩ := h
          simp [toBytes]
      | succ n =>
          cases ending with
          | silent => simp [readUpToFrom] at h
          | closed =>
              simp only [readUpToFrom, Prod.mk.injEq, Except.ok.injEq] at h
              obtain ⟨rfl, rfl⟩ := h
              simp [toBytes]
  | cons d ds ih =>
      cases n with
      | zero =>
          simp only [readUpToFrom, Prod.mk.injEq, Except.ok.injEq] at h
          obtain ⟨rfl, rfl⟩ := h
          exact ⟨[], by simp⟩
      | succ n =>
          cases d with
          | bytes portion =>
              rw [readUpToFrom] at h
              split at h
              · next hlt =>
                simp only [Prod.mk.injEq, Except.ok.injEq] at h
                obtain ⟨rfl, rfl⟩ := h
                refine ⟨portion.take (n + 1), by simp, List.length_take_le _ _, ?_⟩
                simp only [toBytes, List.flatMap_cons, deliveredBytes]
                rw [← List.append_assoc, List.take_append_drop]
              · next hle =>
                obtain ⟨read, rfl, hread, hbytes⟩ := ih h
                refine ⟨portion ++ read, by simp, by rw [List.length_append]; omega, ?_⟩
                rw [List.append_assoc, ← hbytes]
                rfl
          | failure e =>
              by_cases he : isRetried e = true
              · exact ih (by simpa [readUpToFrom, he] using h)
              · simp [readUpToFrom, he] at h

/-- Bytes that have been read were the next ones, and no more than were asked for. -/
theorem toBytes_of_readUpTo {s s' : Stream} {n : Nat} {bs : Bytes}
    (h : s.readUpTo n = (.ok bs, s')) : bs.length ≤ n ∧ s.toBytes = bs ++ s'.toBytes := by
  obtain ⟨read, hbs, hread, hbytes⟩ := toBytes_of_readUpToFrom h
  obtain rfl : bs = read := by simpa using hbs
  exact ⟨hread, hbytes⟩

end PipedCompiler.Bridge.Stream
