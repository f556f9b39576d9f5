import PipedCompiler.Proofs.Language.Descent

/-!
# Reading comes to an end

Statements are read in rounds.  A round yields a statement or an error, and in both cases takes at
least one token, though a fault may be found before any token has been taken, and reading may go on
right where it was found.  So reading comes to an end, at the end of the text, whatever its tokens
are, and a text has no more statements and errors than tokens.
-/

namespace PipedCompiler.Language

/-! ## Rounds -/

/-- What has been read between two places: a statement or an error. -/
structure Round where
  start : Nat
  stop : Nat
  result : Except SyntaxError Stmt

namespace Round

/-- The statement of a round. -/
def statement? (r : Round) : Option Stmt :=
  r.result.toOption

/-- The error of a round. -/
def error? (r : Round) : Option SyntaxError :=
  match r.result with
  | .ok _ => none
  | .error e => some e

theorem length_statements_add_errors (rs : List Round) :
    (rs.filterMap statement?).length + (rs.filterMap error?).length = rs.length := by
  induction rs with
  | nil => rfl
  | cons r rs ih =>
      obtain ⟨start, stop, result⟩ := r
      cases result <;> simp [List.filterMap_cons, statement?, error?, Except.toOption] <;> omega

end Round

namespace SyntaxTree

/-- Appends what a round has come to. -/
def add (t : SyntaxTree) (r : Round) : SyntaxTree :=
  match r.result with
  | .ok st => { t with statements := st :: t.statements }
  | .error e => { t with errors := e :: t.errors }

theorem foldl_add (rs : List Round) (t : SyntaxTree) :
    rs.foldl add t = ⟨(rs.filterMap Round.statement?).reverse ++ t.statements,
      (rs.filterMap Round.error?).reverse ++ t.errors⟩ := by
  induction rs generalizing t with
  | nil => rfl
  | cons r rs ih =>
      obtain ⟨start, stop, result⟩ := r
      rw [List.foldl_cons, ih]
      cases result <;>
        simp [add, List.filterMap_cons, Round.statement?, Round.error?, Except.toOption]

end SyntaxTree

/-- Whether rounds follow each other from one place to another, and none stays where it starts. -/
inductive Successive : Nat → List Round → Nat → Prop
  | nil {i j : Nat} (h : i ≤ j) : Successive i [] j
  | cons {i j : Nat} {r : Round} {rs : List Round} (hstart : i ≤ r.start) (hlt : r.start < r.stop)
      (h : Successive r.stop rs j) : Successive i (r :: rs) j

namespace Successive

variable {i i' j : Nat} {rs : List Round}

theorem mono (h : Successive i rs j) (hle : i' ≤ i) : Successive i' rs j := by
  cases h with
  | nil h => exact .nil (hle.trans h)
  | cons hstart hlt h => exact .cons (hle.trans hstart) hlt h

theorem add_length_le (h : Successive i rs j) : i + rs.length ≤ j := by
  induction h with
  | nil h => exact h
  | cons hstart hlt h ih =>
      rw [List.length_cons]
      omega

theorem of_mem (h : Successive i rs j) {r : Round} (hr : r ∈ rs) :
    i ≤ r.start ∧ r.start < r.stop ∧ r.stop ≤ j := by
  induction h with
  | nil h => cases hr
  | cons hstart hlt h ih =>
      have hle := h.add_length_le
      rcases List.mem_cons.mp hr with rfl | hr
      · omega
      · have := ih hr
        omega

theorem pairwise (h : Successive i rs j) : rs.Pairwise (·.stop ≤ ·.start) := by
  induction h with
  | nil h => exact .nil
  | cons hstart hlt h ih => exact .cons (fun r hr ↦ (h.of_mem hr).1) ih

end Successive

namespace Reader

/-! ## Readers -/

section Slots

variable (slots : List Slot)

/-- Goes on to the next place at which a statement may start. -/
def skipStatement : (depth : Nat) → Reader Unit
  | 0 => nothing
  | depth + 1 => do
    let slot ← current slots
    if slot.token? = none ∨ slot.newlineBefore = true then
      return ()
    else if slot.token? = some .semicolon then
      take slots
    else
      take slots
      skipStatement depth

/-- Goes on after a fault in a statement that started at a place. -/
def recover (depth start : Nat) : Reader Unit := do
  if (← get).place = start then
    take slots
  skipStatement slots depth

/-- Passes over empty statements. -/
def skipSemicolons : (depth : Nat) → Reader Unit
  | 0 => nothing
  | depth + 1 => do
    if (← current slots).token? = some .semicolon then
      take slots
      skipSemicolons depth

/-- Goes on after a statement that started at a place and has come to something. -/
def goOn (depth start : Nat) : Except SyntaxError Stmt → Reader Unit
  | .ok _ => return ()
  | .error _ => recover slots depth start

/-- Reads statement after statement until the text ends, after some rounds that are known, in
reverse. -/
def rounds : (depth : Nat) → List Round → Reader (List Round)
  | 0, _ => nothing
  | depth + 1, known => do
    skipSemicolons slots depth
    if (← current slots).token? = none then
      return known.reverse
    else
      let start := (← get).place
      let result ← attempt (statement slots depth)
      goOn slots depth start result
      rounds depth (⟨start, (← get).place, result⟩ :: known)

end Slots

/-! ## Agreement -/

variable {s : Scan} {ls : List Lexeme} {depth : Nat}

theorem comesTo_skipStatement (hls : ls <:+ s.lexemes) (hdepth : ls.length < depth) :
    ComesTo s (skipStatement s.slots depth) ls (.parsed () (Language.skipStatement ls)) := by
  induction ls generalizing depth with
  | nil =>
      obtain ⟨depth, rfl⟩ : ∃ d, depth = d + 1 := Nat.exists_eq_succ_of_ne_zero (by omega)
      exact (comesTo_current hls).bind rfl
  | cons l ls ih =>
      obtain ⟨depth, rfl⟩ : ∃ d, depth = d + 1 := Nat.exists_eq_succ_of_ne_zero (by omega)
      rw [skipStatement, Language.skipStatement]
      refine (comesTo_current hls).bind ?_
      by_cases hnewline : l.newlineBefore = true
      · rw [if_pos hnewline, if_pos (Scan.ends_slotAt_cons.mpr hnewline)]
        rfl
      rw [if_neg hnewline, if_neg (hnewline ∘ Scan.ends_slotAt_cons.mp)]
      by_cases ht : l.token = .semicolon
      · rw [if_pos ht, if_pos (Scan.token?_slotAt_cons.mpr ht)]
        exact comesTo_take hls
      · rw [if_neg ht, if_neg (ht ∘ Scan.token?_slotAt_cons.mp)]
        exact (comesTo_take hls).bind
          (ih ((List.suffix_cons l ls).trans hls) (Nat.lt_of_succ_lt_succ hdepth))

theorem comesTo_recover {rest : List Lexeme} (hls : ls <:+ s.lexemes) (hne : ls ≠ [])
    (hrest : rest <:+ ls) (hdepth : ls.length < depth) :
    ComesTo s (recover s.slots depth (s.walkTo ls).place) rest
      (.parsed () (Language.recover ls rest)) := by
  have hle := hrest.length_le
  refine (comesTo_get rest).bind ?_
  rw [Language.recover]
  by_cases hlength : rest.length = ls.length
  · rw [if_pos hlength, if_pos ((Scan.place_walkTo_eq_iff hls hrest).mpr hlength)]
    obtain ⟨l, rest, rfl⟩ : ∃ l ls, rest = l :: ls :=
      List.exists_cons_of_length_pos (hlength ▸ List.length_pos_iff.mpr hne)
    have hsuffix := hrest.trans hls
    exact (comesTo_take hsuffix).bind (comesTo_skipStatement
      ((List.suffix_cons l rest).trans hsuffix) (Nat.lt_of_le_of_lt (Nat.le_of_succ_le hle) hdepth))
  · rw [if_neg hlength, if_neg (hlength ∘ (Scan.place_walkTo_eq_iff hls hrest).mp)]
    exact comesTo_skipStatement (hrest.trans hls) (Nat.lt_of_le_of_lt hle hdepth)

theorem comesTo_skipSemicolons (hls : ls <:+ s.lexemes) (hdepth : ls.length < depth) :
    ComesTo s (skipSemicolons s.slots depth) ls
      (.parsed () (ls.dropWhile fun l ↦ l.token = .semicolon)) := by
  induction ls generalizing depth with
  | nil =>
      obtain ⟨depth, rfl⟩ : ∃ d, depth = d + 1 := Nat.exists_eq_succ_of_ne_zero (by omega)
      exact (comesTo_current hls).bind rfl
  | cons l ls ih =>
      obtain ⟨depth, rfl⟩ : ∃ d, depth = d + 1 := Nat.exists_eq_succ_of_ne_zero (by omega)
      rw [skipSemicolons]
      refine (comesTo_current hls).bind ?_
      by_cases ht : l.token = .semicolon
      · rw [List.dropWhile_cons_of_pos (by simpa using ht), if_pos (Scan.token?_slotAt_cons.mpr ht)]
        exact (comesTo_take hls).bind
          (ih ((List.suffix_cons l ls).trans hls) (Nat.lt_of_succ_lt_succ hdepth))
      · rw [List.dropWhile_cons_of_neg (by simpa using ht),
          if_neg (ht ∘ Scan.token?_slotAt_cons.mp)]
        rfl

theorem comesTo_rounds_nil (known : List Round) :
    ComesTo s (rounds s.slots (depth + 2) known) [] (.parsed known.reverse []) := by
  have hnil : [] <:+ s.lexemes := List.nil_suffix
  exact (comesTo_skipSemicolons hnil (Nat.succ_pos depth)).bind ((comesTo_current hnil).bind rfl)

theorem comesTo_rounds_semicolon {l : Lexeme} {known : List Round} {o : Outcome (List Round)}
    (hls : l :: ls <:+ s.lexemes) (ht : l.token = .semicolon) (hdepth : (l :: ls).length < depth)
    (h : ComesTo s (rounds s.slots (depth + 1) known) ls o) :
    ComesTo s (rounds s.slots (depth + 1) known) (l :: ls) o := by
  have hskip := comesTo_skipSemicolons hls hdepth
  have hskip' :=
    comesTo_skipSemicolons ((List.suffix_cons l ls).trans hls) (Nat.lt_of_succ_lt hdepth)
  rw [List.dropWhile_cons_of_pos (by simpa using ht)] at hskip
  rw [rounds] at h ⊢
  rw [hskip'.bind_iff] at h
  exact hskip.bind h

theorem comesTo_rounds_cons {l : Lexeme} {known : List Round} {result : Except SyntaxError Stmt}
    {rest next : List Lexeme} {o : Outcome (List Round)}
    (hls : l :: ls <:+ s.lexemes) (ht : l.token ≠ .semicolon) (hdepth : (l :: ls).length < depth)
    (hstatement : ComesTo s (attempt (statement s.slots depth)) (l :: ls) (.parsed result rest))
    (hgoOn : ComesTo s (goOn s.slots depth (s.walkTo (l :: ls)).place result) rest
      (.parsed () next))
    (hrounds : ComesTo s (rounds s.slots depth
      (⟨(s.walkTo (l :: ls)).place, (s.walkTo next).place, result⟩ :: known)) next o) :
    ComesTo s (rounds s.slots (depth + 1) known) (l :: ls) o := by
  have hskip := comesTo_skipSemicolons hls hdepth
  rw [List.dropWhile_cons_of_neg (by simpa using ht)] at hskip
  rw [rounds]
  refine hskip.bind ((comesTo_current hls).bind ?_)
  rw [if_neg (by rintro ⟨⟩)]
  exact (comesTo_get _).bind (hstatement.bind (hgoOn.bind ((comesTo_get _).bind hrounds)))

/-- One round, which takes at least one lexeme, whether a statement comes of it or an error. -/
theorem exists_round {l : Lexeme} {m : Nat} (hls : l :: ls <:+ s.lexemes)
    (ht : l.token ≠ .semicolon) (hm : ls.length ≤ m) :
    ∃ (r : Round) (next : List Lexeme), next <:+ l :: ls ∧ next.length < (l :: ls).length ∧
      r.start = (s.walkTo (l :: ls)).place ∧ r.stop = (s.walkTo next).place ∧
      (∀ t, SyntaxTree.readFrom s.size (m + 1) t (l :: ls) =
        SyntaxTree.readFrom s.size m (t.add r) next) ∧
      ∀ depth, 6 * (l :: ls).length + 6 ≤ depth →
        ∀ known o, ComesTo s (rounds s.slots depth (r :: known)) next o →
          ComesTo s (rounds s.slots (depth + 1) known) (l :: ls) o := by
  have hlength : (l :: ls).length ≤ m + 1 := Nat.succ_le_succ hm
  have hdeep {depth : Nat} (hdepth : 6 * (l :: ls).length + 6 ≤ depth) :
      (l :: ls).length < depth := by omega
  have hstatement {depth : Nat} (hdepth : 6 * (l :: ls).length + 6 ≤ depth) :=
    comesTo_attempt (agrees_statement (n := m + 1) (l :: ls) hls hlength depth hdepth)
  have hleaves := Parser.leaves_statement (m + 1) (l :: ls)
  simp only [SyntaxTree.readFrom, if_neg ht]
  cases hread : Parser.statement (m + 1) (l :: ls) with
  | parsed st rest =>
      simp only [hread] at hstatement hleaves
      exact ⟨⟨_, _, .ok st⟩, rest, hleaves, Parser.length_lt_of_statement hread, rfl, rfl,
        fun _ ↦ rfl, fun _ hdepth _ _ ↦
          comesTo_rounds_cons hls ht (hdeep hdepth) (hstatement hdepth) (comesTo_pure () rest)⟩
  | failed fault rest =>
      simp only [hread] at hstatement hleaves
      have hne := List.cons_ne_nil l ls
      exact ⟨⟨_, _, .error _⟩, Language.recover (l :: ls) rest, recover_suffix hleaves.2,
        length_recover_lt hne hleaves.2, rfl, rfl, fun _ ↦ rfl, fun _ hdepth _ _ ↦
          comesTo_rounds_cons hls ht (hdeep hdepth) (hstatement hdepth)
            (comesTo_recover hls hne hleaves.2 (hdeep hdepth))⟩

/-- Reading round after round comes to an end, and to what the lexemes are read as. -/
theorem comesTo_rounds {m : Nat} (hls : ls <:+ s.lexemes) (hm : ls.length ≤ m)
    (known : List Round) :
    ∃ rs, (∀ depth, 6 * ls.length + 6 ≤ depth →
        ComesTo s (rounds s.slots (depth + 1) known) ls (.parsed (known.reverse ++ rs) [])) ∧
      Successive (s.walkTo ls).place rs s.lexemes.length ∧
      ∀ t, SyntaxTree.readFrom s.size m t ls = rs.foldl SyntaxTree.add t := by
  have hnil (m : Nat) (known : List Round) :
      ∃ rs, (∀ depth, 6 * ([] : List Lexeme).length + 6 ≤ depth →
          ComesTo s (rounds s.slots (depth + 1) known) [] (.parsed (known.reverse ++ rs) [])) ∧
        Successive (s.walkTo []).place rs s.lexemes.length ∧
        ∀ t, SyntaxTree.readFrom s.size m t [] = rs.foldl SyntaxTree.add t := by
    refine ⟨[], fun depth hdepth ↦ ?_, .nil (Nat.sub_le _ _), SyntaxTree.readFrom_nil s.size m⟩
    obtain ⟨depth, rfl⟩ : ∃ d, depth = d + 1 := Nat.exists_eq_succ_of_ne_zero (by omega)
    simpa using comesTo_rounds_nil known
  induction m generalizing ls known with
  | zero =>
      obtain rfl : ls = [] := List.length_eq_zero_iff.mp (Nat.le_zero.mp hm)
      exact hnil 0 known
  | succ m ih =>
      cases ls with
      | nil => exact hnil (m + 1) known
      | cons l ls =>
          rw [List.length_cons] at hm
          by_cases ht : l.token = .semicolon
          · obtain ⟨rs, hrounds, hsuccessive, hread⟩ :=
              ih ((List.suffix_cons l ls).trans hls) (by omega) known
            refine ⟨rs, fun depth hdepth ↦ ?_, hsuccessive.mono ?_, fun t ↦ ?_⟩
            · rw [List.length_cons] at hdepth
              exact comesTo_rounds_semicolon hls ht (by rw [List.length_cons]; omega)
                (hrounds depth (by omega))
            · rw [Scan.place_walkTo_cons hls]
              exact Nat.le_succ _
            · rw [SyntaxTree.readFrom, if_pos ht]
              exact hread t
          · obtain ⟨r, next, hnext, hlt, hstart, hstop, htree, hround⟩ :=
              exists_round hls ht (Nat.le_of_succ_le_succ hm)
            obtain ⟨rs, hrounds, hsuccessive, hread⟩ :=
              ih (hnext.trans hls) (Nat.le_of_lt_succ (Nat.lt_of_lt_of_le hlt hm)) (r :: known)
            rw [List.reverse_cons, List.append_assoc] at hrounds
            rw [← hstop] at hsuccessive
            have hplace := Scan.place_walkTo_lt hls hlt
            refine ⟨r :: rs, fun depth hdepth ↦ hround depth hdepth known _ ?_, ?_, fun t ↦ ?_⟩
            · obtain ⟨depth, rfl⟩ : ∃ d, depth = d + 1 :=
                Nat.exists_eq_succ_of_ne_zero (by omega)
              exact hrounds depth (by omega)
            · exact .cons (Nat.le_of_eq hstart.symm) (by omega) hsuccessive
            · rw [htree, hread, List.foldl_cons]

/-- Reading the tokens of a text comes to an end, whatever they are: six calls for each of them are
deep enough, and however much deeper calls may go, it comes to the same.  It goes over all places up
to the end of the text, one after the other, and looks at no other one.  It does so in rounds, each
of which yields a statement or an error and takes at least one token, and none takes the end.  What
the rounds yield is what the text is read as, so it has no more statements and errors than tokens.
-/
theorem rounds_come_to_end {slots : List Slot} (hslots : EndsOnce slots) :
    ∃ (s : Scan) (rs : List Round) (w : Walk), s.slots = slots ∧
      (∀ depth, 6 * slots.length < depth →
        (rounds slots depth []).run.run .start = some (.ok rs, w)) ∧
      w.places = List.range slots.length ∧
      (∀ r ∈ rs, r.start < r.stop ∧ r.stop < slots.length) ∧
      rs.Pairwise (·.stop ≤ ·.start) ∧
      SyntaxTree.ofLexemes s.size s.lexemes =
        ⟨rs.filterMap Round.statement?, rs.filterMap Round.error?⟩ ∧
      (SyntaxTree.ofLexemes s.size s.lexemes).statements.length +
        (SyntaxTree.ofLexemes s.size s.lexemes).errors.length ≤ slots.length - 1 := by
  obtain ⟨s, rfl⟩ := hslots.exists_scan
  obtain ⟨rs, hrounds, hsuccessive, hread⟩ :=
    comesTo_rounds (s := s) (List.suffix_refl _) (Nat.le_refl _) []
  have htree : SyntaxTree.ofLexemes s.size s.lexemes =
      ⟨rs.filterMap Round.statement?, rs.filterMap Round.error?⟩ := by
    rw [SyntaxTree.ofLexemes, hread, SyntaxTree.foldl_add]
    simp
  unfold ComesTo at hrounds
  rw [Scan.walkTo_lexemes] at hrounds
  refine ⟨s, rs, s.walkTo [], rfl, fun depth hdepth ↦ ?_, Scan.places_walkTo_nil, fun r hr ↦ ?_,
    hsuccessive.pairwise, htree, ?_⟩
  · rw [Scan.length_slots] at hdepth
    obtain ⟨depth, rfl⟩ : ∃ d, depth = d + 1 := Nat.exists_eq_succ_of_ne_zero (by omega)
    exact hrounds depth (by omega)
  · obtain ⟨-, hlt, hstop⟩ := hsuccessive.of_mem hr
    rw [Scan.length_slots]
    exact ⟨hlt, Nat.lt_succ_of_le hstop⟩
  · have hlength := hsuccessive.add_length_le
    rw [htree, Round.length_statements_add_errors, Scan.length_slots, Nat.add_sub_cancel]
    omega

/-- A text that starts with a stray parenthesis, has an empty statement and an export without a
name, and ends in the middle of a call. -/
def strayMarks : String := ") x\nlet y = 1; ;\nexport 2 3\nf(4"

theorem rounds_come_to_end_strayMarks :
    ∃ scan, Scan.ofText? strayMarks.toList = some scan ∧ EndsOnce scan.slots ∧
      scan.slots.length = 15 ∧
      ∃ (s : Scan) (rs : List Round) (w : Walk), s.slots = scan.slots ∧
        (∀ depth, 90 < depth →
          (rounds scan.slots depth []).run.run .start = some (.ok rs, w)) ∧
        w.places = List.range 15 ∧ (∀ r ∈ rs, r.start < r.stop ∧ r.stop < 15) ∧
        rs.Pairwise (·.stop ≤ ·.start) ∧
        SyntaxTree.ofLexemes s.size s.lexemes =
          ⟨rs.filterMap Round.statement?, rs.filterMap Round.error?⟩ ∧
        (SyntaxTree.ofLexemes s.size s.lexemes).statements.length +
          (SyntaxTree.ofLexemes s.size s.lexemes).errors.length ≤ 14 := by
  obtain ⟨scan, hscan⟩ : ∃ scan, Scan.ofText? strayMarks.toList = some scan :=
    Option.isSome_iff_exists.mp (by decide +kernel)
  have hlength : (Scan.ofText? strayMarks.toList).map (·.slots.length) = some 15 := by
    decide +kernel
  simp only [hscan, Option.map_some, Option.some.injEq] at hlength
  have hends := scan.endsOnce_slots
  have hrounds := rounds_come_to_end hends
  rw [hlength] at hrounds
  exact ⟨scan, hscan, hends, hlength, hrounds⟩

end Reader

end PipedCompiler.Language
