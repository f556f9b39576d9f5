import PipedCompiler.Proofs.Language.Recovery

/-!
# Reading from place to place

A reader moves over the tokens of a text and the mark at their end, from one place to the next.  It
comes to nothing where it looks at a place where nothing stands.  How deep readers may call each
other is limited only to say how deep they do: where they would go deeper they come to nothing, so
that what a reader comes to owes nothing to the limit.  A reader agrees with a parser, which is
given the lexemes that are left, if it comes to the same wherever it starts.
-/

namespace PipedCompiler.Language

/-! ## Places -/

/-- What stands at a place: a token or, if there is none, the end of the text. -/
structure Slot where
  token? : Option Token
  offset : Nat
  newlineBefore : Bool
  deriving Repr, DecidableEq

/-- The place of a lexeme. -/
def Slot.ofLexeme (l : Lexeme) : Slot :=
  ⟨some l.token, l.offset, l.newlineBefore⟩

/-- Whether the end of the text stands at the last place and nowhere else. -/
def EndsOnce (slots : List Slot) : Prop :=
  slots.getLast?.map Slot.token? = some none ∧ ∀ slot ∈ slots.dropLast, slot.token? ≠ none

instance (slots : List Slot) : Decidable (EndsOnce slots) :=
  inferInstanceAs (Decidable (_ ∧ _))

namespace Scan

/-- The end of a text. -/
def endSlot (s : Scan) : Slot :=
  ⟨none, s.size, s.newlineAtEnd⟩

/-- The lexemes of a text, and its end. -/
def slots (s : Scan) : List Slot :=
  s.lexemes.map Slot.ofLexeme ++ [s.endSlot]

/-- What stands at the place from which on `ls` are left. -/
def slotAt (s : Scan) : List Lexeme → Slot
  | [] => s.endSlot
  | l :: _ => .ofLexeme l

@[simp] theorem slotAt_nil (s : Scan) : s.slotAt [] = s.endSlot :=
  rfl

@[simp] theorem slotAt_cons (s : Scan) (l : Lexeme) (ls : List Lexeme) :
    s.slotAt (l :: ls) = .ofLexeme l :=
  rfl

theorem token?_slotAt_cons {s : Scan} {l : Lexeme} {ls : List Lexeme} {t : Token} :
    (s.slotAt (l :: ls)).token? = some t ↔ l.token = t := by
  simp [Slot.ofLexeme]

/-- A statement may end before a lexeme just if it starts a line. -/
theorem ends_slotAt_cons {s : Scan} {l : Lexeme} {ls : List Lexeme} :
    (s.slotAt (l :: ls)).token? = none ∨ (s.slotAt (l :: ls)).newlineBefore = true ↔
      l.newlineBefore = true := by
  simp [Slot.ofLexeme]

theorem length_slots (s : Scan) : s.slots.length = s.lexemes.length + 1 := by
  simp [slots]

theorem endsOnce_slots (s : Scan) : EndsOnce s.slots := by
  simp [EndsOnce, slots, endSlot, Slot.ofLexeme]

end Scan

theorem exists_map_ofLexeme_eq {slots : List Slot} (h : ∀ slot ∈ slots, slot.token? ≠ none) :
    ∃ ls : List Lexeme, ls.map Slot.ofLexeme = slots := by
  induction slots with
  | nil => exact ⟨[], rfl⟩
  | cons slot slots ih =>
      obtain ⟨hslot, hslots⟩ := List.forall_mem_cons.mp h
      obtain ⟨ls, rfl⟩ := ih hslots
      obtain ⟨token?, offset, newline⟩ := slot
      obtain ⟨t, rfl⟩ := Option.ne_none_iff_exists'.mp hslot
      exact ⟨⟨t, offset, newline⟩ :: ls, rfl⟩

/-- Places with one end are those of a text. -/
theorem EndsOnce.exists_scan {slots : List Slot} (h : EndsOnce slots) :
    ∃ s : Scan, s.slots = slots := by
  obtain ⟨hlast, hfront⟩ := h
  obtain ⟨⟨token?, size, newline⟩, hmem, rfl⟩ := Option.map_eq_some_iff.mp hlast
  obtain ⟨ls, hls⟩ := exists_map_ofLexeme_eq hfront
  refine ⟨⟨ls, [], size, newline⟩, ?_⟩
  rw [Scan.slots, hls]
  exact List.dropLast_append_getLast? _ hmem

/-! ## Readers -/

/-- Where a reader is, and where it has been before, the latest place first. -/
structure Walk where
  place : Nat
  passed : List Nat
  deriving Repr, DecidableEq

namespace Walk

/-- At the first place. -/
def start : Walk := ⟨0, []⟩

/-- Goes to another place. -/
def goTo (w : Walk) (place : Nat) : Walk :=
  ⟨place, w.place :: w.passed⟩

/-- All places of a walk, from the first one to the present one. -/
def places (w : Walk) : List Nat :=
  (w.place :: w.passed).reverse

end Walk

/-- Something that reads from place to place, and comes to a value, to an error or to nothing. -/
abbrev Reader (α : Type) := ExceptT SyntaxError (StateT Walk Option) α

namespace Reader

variable {α β : Type}

/-- Goes too deep. -/
def nothing : Reader α :=
  ExceptT.lift (StateT.lift none)

section Slots

variable (slots : List Slot)

/-- What stands at a place. -/
def lookUp (place : Nat) : Reader Slot :=
  ExceptT.lift (StateT.lift slots[place]?)

/-- What stands at the present place. -/
def current : Reader Slot := do
  lookUp slots (← get).place

/-- What stands at the next place, or at the last one if that has been reached. -/
def following : Reader Slot := do
  lookUp slots (min ((← get).place + 1) (slots.length - 1))

/-- Takes what stands at the present place.  The last place is not left. -/
def take : Reader Unit := do
  let _ ← current slots
  modify fun w ↦ if w.place + 1 < slots.length then w.goTo (w.place + 1) else w

/-- Stops at the present place. -/
def stop (fault : ParseFault) : Reader α := do
  throw ⟨(← current slots).offset, .parse fault⟩

end Slots

/-- What a reader comes to, which may be an error. -/
def attempt (r : Reader α) : Reader (Except SyntaxError α) :=
  ExceptT.lift r.run

end Reader

/-! ## Agreement -/

/-- The value or the error of an outcome, in a text of `size` bytes. -/
def Outcome.result {α : Type} (size : Nat) : Outcome α → Except SyntaxError α
  | .parsed a _ => .ok a
  | .failed fault rest => .error ⟨fault.offset size rest, .parse fault⟩

/-- Whether a fault is reported at the place where it has been found. -/
def ParseFault.IsHere : ParseFault → Prop
  | .uninitialized _ => False
  | _ => True

/-- The walk that has gone from place to place until `ls` are left. -/
def Scan.walkTo (s : Scan) (ls : List Lexeme) : Walk :=
  let place := s.lexemes.length - ls.length
  ⟨place, (List.range place).reverse⟩

namespace Scan

variable {s : Scan} {l : Lexeme} {ls : List Lexeme}

theorem walkTo_lexemes : s.walkTo s.lexemes = .start := by
  simp [walkTo, Walk.start]

theorem places_walkTo_nil : (s.walkTo []).places = List.range s.slots.length := by
  simp [walkTo, Walk.places, length_slots, List.range_succ]

theorem place_walkTo_cons_lt (h : l :: ls <:+ s.lexemes) :
    (s.walkTo (l :: ls)).place + 1 < s.slots.length := by
  have hle := h.length_le
  rw [List.length_cons] at hle
  simp only [length_slots, walkTo, List.length_cons]
  omega

theorem place_walkTo_cons (h : l :: ls <:+ s.lexemes) :
    (s.walkTo ls).place = (s.walkTo (l :: ls)).place + 1 := by
  have hle := h.length_le
  rw [List.length_cons] at hle
  simp only [walkTo, List.length_cons]
  omega

theorem place_walkTo_eq_iff {rest : List Lexeme} (hls : ls <:+ s.lexemes) (hrest : rest <:+ ls) :
    (s.walkTo rest).place = (s.walkTo ls).place ↔ rest.length = ls.length := by
  have hle := hls.length_le
  have hle' := hrest.length_le
  simp only [walkTo]
  omega

theorem place_walkTo_lt {rest : List Lexeme} (hls : ls <:+ s.lexemes)
    (hlt : rest.length < ls.length) : (s.walkTo ls).place < (s.walkTo rest).place := by
  have hle := hls.length_le
  simp only [walkTo]
  omega

theorem goTo_walkTo_cons (h : l :: ls <:+ s.lexemes) :
    (s.walkTo (l :: ls)).goTo ((s.walkTo (l :: ls)).place + 1) = s.walkTo ls := by
  have hplace := place_walkTo_cons h
  simp only [walkTo] at hplace
  simp [walkTo, Walk.goTo, hplace, List.range_succ]

theorem getElem?_slots (h : ls <:+ s.lexemes) :
    s.slots[(s.walkTo ls).place]? = some (s.slotAt ls) := by
  obtain ⟨before, happend⟩ := h
  have hplace : (s.walkTo ls).place = before.length := by
    simp [walkTo, ← happend]
  rw [hplace, slots, ← happend]
  cases ls <;> simp [slotAt, endSlot]

end Scan

namespace Reader

variable {α β : Type}

/-- Whether a reader goes from where `ls` are left to where the outcome leaves off, by way of all
the places between, and comes to the same. -/
def ComesTo (s : Scan) (r : Reader α) (ls : List Lexeme) (o : Outcome α) : Prop :=
  r.run.run (s.walkTo ls) = some (o.result s.size, s.walkTo o.rest)

variable {s : Scan} {l : Lexeme} {ls rest : List Lexeme}

theorem ComesTo.bind {r : Reader α} {a : α} (h : ComesTo s r ls (.parsed a rest))
    {next : α → Reader β} {o : Outcome β} (hnext : ComesTo s (next a) rest o) :
    ComesTo s (r >>= next) ls o := by
  unfold ComesTo at *
  rw [ExceptT.run_bind, StateT.run_bind, h]
  exact hnext

theorem ComesTo.bind_iff {r : Reader α} {a : α} (h : ComesTo s r ls (.parsed a rest))
    {next : α → Reader β} {o : Outcome β} :
    ComesTo s (r >>= next) ls o ↔ ComesTo s (next a) rest o := by
  refine ⟨fun hbind ↦ ?_, h.bind⟩
  unfold ComesTo at *
  rw [ExceptT.run_bind, StateT.run_bind, h] at hbind
  exact hbind

theorem ComesTo.bind_failed {r : Reader α} {fault : ParseFault}
    (h : ComesTo s r ls (.failed fault rest)) (next : α → Reader β) :
    ComesTo s (r >>= next) ls (.failed fault rest) := by
  unfold ComesTo at *
  rw [ExceptT.run_bind, StateT.run_bind, h]
  rfl

/-- What comes of two readers hangs on how the first one ends. -/
theorem ComesTo.bind_cases {r : Reader α} {o : Outcome α} (h : ComesTo s r ls o)
    {next : α → Reader β} {o' : Outcome β}
    (hparsed : ∀ a rest, o = .parsed a rest → ComesTo s (next a) rest o')
    (hfailed : ∀ fault rest, o = .failed fault rest → o' = .failed fault rest) :
    ComesTo s (r >>= next) ls o' := by
  cases o with
  | parsed a rest => exact h.bind (hparsed a rest rfl)
  | failed fault rest => exact hfailed fault rest rfl ▸ h.bind_failed next

theorem comesTo_pure (a : α) (ls : List Lexeme) : ComesTo s (pure a) ls (.parsed a ls) :=
  rfl

theorem comesTo_get (ls : List Lexeme) : ComesTo s get ls (.parsed (s.walkTo ls) ls) :=
  rfl

theorem comesTo_attempt {r : Reader α} {o : Outcome α} (h : ComesTo s r ls o) :
    ComesTo s (attempt r) ls (.parsed (o.result s.size) o.rest) := by
  unfold ComesTo at *
  show (r.run.run (s.walkTo ls)).bind _ = _
  rw [h]
  rfl

theorem run_lookUp (slots : List Slot) (place : Nat) (w : Walk) :
    (lookUp slots place).run.run w = slots[place]?.map fun slot ↦ (.ok slot, w) := by
  unfold lookUp
  cases slots[place]? <;> rfl

theorem comesTo_current (h : ls <:+ s.lexemes) :
    ComesTo s (current s.slots) ls (.parsed (s.slotAt ls) ls) := by
  show (lookUp s.slots (s.walkTo ls).place).run.run (s.walkTo ls) = _
  rw [run_lookUp, Scan.getElem?_slots h]
  rfl

/-- The last place is followed by itself. -/
theorem comesTo_following (h : ls <:+ s.lexemes) :
    ComesTo s (following s.slots) ls (.parsed (s.slotAt ls.tail) ls) := by
  have hplace : min ((s.walkTo ls).place + 1) (s.slots.length - 1) = (s.walkTo ls.tail).place := by
    cases ls with
    | nil => simp [Scan.walkTo, Scan.length_slots]
    | cons l ls =>
        have hlt := Scan.place_walkTo_cons_lt h
        rw [List.tail_cons, Scan.place_walkTo_cons h]
        exact Nat.min_eq_left (by omega)
  show (lookUp s.slots (min ((s.walkTo ls).place + 1) (s.slots.length - 1))).run.run
    (s.walkTo ls) = _
  rw [hplace, run_lookUp, Scan.getElem?_slots ((List.tail_suffix ls).trans h)]
  rfl

theorem comesTo_take (h : l :: ls <:+ s.lexemes) :
    ComesTo s (take s.slots) (l :: ls) (.parsed () ls) := by
  refine (comesTo_current h).bind ?_
  show some (_, if _ then _ else _) = _
  rw [if_pos (Scan.place_walkTo_cons_lt h), Scan.goTo_walkTo_cons h]
  rfl

theorem comesTo_stop (h : ls <:+ s.lexemes) {fault : ParseFault} (hfault : fault.IsHere) :
    ComesTo s (stop s.slots fault : Reader α) ls (.failed fault ls) := by
  refine (comesTo_current h).bind ?_
  have hoffset : (s.slotAt ls).offset = fault.offset s.size ls := by
    cases fault with
    | uninitialized name => exact hfault.elim
    | _ => cases ls <;> rfl
  rw [hoffset]
  rfl

/-! ### Readers and parsers -/

/-- Whether a reader, which may call others up to a depth, comes to what a parser does wherever at
most `bound` lexemes are left.  Six calls for each of them are deep enough, and `more` on top. -/
def Agrees (s : Scan) (bound more : Nat) (r : Nat → Reader α) (p : Parser α) : Prop :=
  ∀ ls, ls <:+ s.lexemes → ls.length ≤ bound → ∀ depth, 6 * ls.length + more ≤ depth →
    ComesTo s (r depth) ls (p ls)

variable {n k : Nat}

theorem Agrees.bind {r : Nat → Reader α} {p : Parser α} (h : Agrees s n k r p)
    (hp : Parser.Leaves p) {next : α → Nat → Reader β} {next' : α → Parser β}
    (hnext : ∀ a, Agrees s n k (next a) (next' a)) :
    Agrees s n k (fun depth ↦ r depth >>= fun a ↦ next a depth) (p >>= next') := by
  intro ls hls hn depth hdepth
  have hleaves := hp ls
  show ComesTo s (r depth >>= _) ls (Parser.bind p next' ls)
  rw [Parser.bind]
  refine (h ls hls hn depth hdepth).bind_cases (fun a rest hread ↦ ?_)
    fun fault rest hread ↦ by rw [hread]
  rw [hread] at hleaves ⊢
  have hle := List.IsSuffix.length_le hleaves
  exact hnext a rest (List.IsSuffix.trans hleaves hls) (by omega) depth (by omega)

theorem Agrees.mono {k' : Nat} {r : Nat → Reader α} {p : Parser α} (h : Agrees s n k r p)
    (hk : k ≤ k') : Agrees s n k' r p :=
  fun ls hls hn depth hdepth ↦ h ls hls hn depth (by omega)

/-- One call deeper. -/
theorem Agrees.succ {r : Nat → Reader α} {p : Parser α}
    (h : Agrees s n k (fun depth ↦ r (depth + 1)) p) : Agrees s n (k + 1) r p := by
  intro ls hls hn depth hdepth
  cases depth with
  | zero => omega
  | succ depth => exact h ls hls hn depth (by omega)

theorem Agrees.of_comesTo {r : Reader α} {p : Parser α}
    (h : ∀ ls, ls <:+ s.lexemes → ComesTo s r ls (p ls)) : Agrees s n k (fun _ ↦ r) p :=
  fun ls hls _ _ _ ↦ h ls hls

theorem agrees_pure (a : α) : Agrees s n k (fun _ ↦ pure a) (pure a) :=
  fun _ _ _ _ _ ↦ rfl

theorem Agrees.map {r : Nat → Reader α} {p : Parser α} (h : Agrees s n k r p)
    (hp : Parser.Leaves p) (f : α → β) :
    Agrees s n k (fun depth ↦ do return f (← r depth)) (f <$> p) :=
  h.bind hp fun a ↦ agrees_pure (f a)

end Reader

end PipedCompiler.Language
