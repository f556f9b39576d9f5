import PipedCompiler.Proofs.Language.Cutting
import PipedCompiler.Proofs.Language.Places

/-!
# Texts on lines of their own

A line break cuts a text: nothing goes on behind it but a block comment.  So where a text ends with
all comments closed, the pieces behind a line break are those of what stands there alone, and so are
the lexemes, apart from their places.
-/

namespace PipedCompiler.Language

open PipedCompiler.Text

/-! ## Pieces -/

section Pieces

variable {c quote : Char} {cs value taken : List Char}

theorem numberRest_lineBreak (cs rest : List Char) :
    numberRest (cs ++ '\n' :: rest) = ((numberRest cs).1, (numberRest cs).2 ++ '\n' :: rest) := by
  have hbreak : Char.isDigit '\n' = false := rfl
  rw [numberRest, numberRest, takeWhile_append_cons hbreak, dropWhile_append_cons hbreak]
  cases cs.dropWhile Char.isDigit with
  | nil => rfl
  | cons d ds =>
      by_cases hd : d = '.'
      · subst hd
        simp only [List.cons_append, takeWhile_append_cons hbreak, dropWhile_append_cons hbreak]
      · simp [hd]

/-- A comment that is closed does not depend on what comes behind. -/
theorem blockComment_of_closed (rest : List Char) (h : (blockComment taken cs).1 = true) :
    blockComment taken (cs ++ rest) =
      (true, (blockComment taken cs).2.1, (blockComment taken cs).2.2 ++ rest) := by
  fun_induction blockComment taken cs with
  | case1 taken => cases h
  | case2 taken cs => rfl
  | case3 taken c cs hopen ih =>
      rw [← ih h, List.cons_append, blockComment.eq_3]
      rintro more rfl hmore
      cases cs with
      | nil => cases h
      | cons d cs =>
          obtain ⟨rfl, rfl⟩ := List.cons.inj hmore
          exact hopen cs rfl rfl

theorem stringRest_lineBreak (rest : List Char) :
    stringRest quote value taken (cs ++ '\n' :: rest) =
      ((stringRest quote value taken cs).1, (stringRest quote value taken cs).2.1,
        (stringRest quote value taken cs).2.2 ++ '\n' :: rest) := by
  fun_induction stringRest quote value taken cs with
  | case1 => simp [stringRest.eq_def]
  | case2 => simp [stringRest.eq_def]
  | case3 => simp_all [stringRest.eq_def]
  | case4 => simp_all [stringRest.eq_def]
  | case5 => simp_all [stringRest.eq_def]
  | case6 value taken e cs hquote hbackslash hline ih =>
      rw [← ih, List.cons_append, List.cons_append, stringRest.eq_def]
      simp [*]
  | case7 value taken c cs hline hquote hbackslash ih =>
      rw [← ih, List.cons_append, stringRest.eq_def]
      simp [*]

/-- A piece ends at a line break, unless it is a comment that has not been closed. -/
theorem Piece.first_lineBreak (rest : List Char)
    (h : (Piece.first c cs).1.kind ≠ .fault .unterminatedComment) :
    Piece.first c (cs ++ '\n' :: rest) =
      ((Piece.first c cs).1, (Piece.first c cs).2 ++ '\n' :: rest) := by
  have hhead (d : Char) (hd : d ≠ '\n') :
      ((cs ++ '\n' :: rest).head? == some d) = (cs.head? == some d) := by
    cases cs with
    | nil => simpa using hd.symm
    | cons d' cs => rfl
  have hword : continuesWord '\n' = false := by decide +kernel
  have hline : (fun d ↦ decide (d ≠ '\n')) '\n' = false := rfl
  unfold Piece.first at h ⊢
  rw [hhead '/' (by decide), hhead '*' (by decide)]
  split
  · rfl
  split
  · rw [lineComment, lineComment, takeWhile_append_cons hline, dropWhile_append_cons hline]
  split
  · next hblank hcomment hblock =>
    rw [if_neg hblank, if_neg hcomment, if_pos hblock] at h
    obtain ⟨cs, rfl⟩ : ∃ more, cs = '*' :: more := by
      cases cs with
      | nil => simp at hblock
      | cons d cs => exact ⟨cs, by simp at hblock; rw [hblock.2]⟩
    have hclosed : (blockComment ['*', '/'] cs).1 = true := by
      by_contra hopen
      exact h (if_neg hopen)
    rw [List.cons_append, List.tail_cons, List.tail_cons, blockComment_of_closed _ hclosed]
    dsimp only
    rw [hclosed]
  split
  · rw [stringRest_lineBreak]
    dsimp only
    split <;> rfl
  split
  · rw [numberRest_lineBreak]
  split
  · rw [takeWhile_append_cons hword, dropWhile_append_cons hword]
  -- what is left takes one character, or two if an operator is followed by an equals sign
  cases operator? c with
  | none => dsimp only; split <;> rfl
  | some op =>
      cases cs with
      | nil => rfl
      | cons d cs =>
          by_cases hd : d = '='
          · subst hd
            rfl
          · simp [hd]

/-- What stands on both sides of a line break is cut by itself, if all comments before it have been
closed. -/
theorem pieces_lineBreak {cs : List Char} (rest : List Char)
    (h : ∀ p ∈ pieces cs, p.kind ≠ .fault .unterminatedComment) :
    pieces (cs ++ '\n' :: rest) = pieces cs ++ ⟨.gap, ['\n']⟩ :: pieces rest := by
  generalize hn : cs.length = n
  induction n using Nat.strongRecOn generalizing cs with
  | ind n ih =>
      cases cs with
      | nil =>
          have hblank : isBlank '\n' = true := by decide
          rw [List.nil_append, pieces_nil, List.nil_append, pieces_blank hblank]
      | cons c cs =>
          have hlt := Piece.first_length c cs
          rw [List.length_cons] at hn
          rw [pieces_cons, List.forall_mem_cons] at h
          rw [List.cons_append, pieces_cons, pieces_cons, Piece.first_lineBreak rest h.1,
            ih _ (by omega) h.2 rfl, List.cons_append]

end Pieces

/-! ## Lexemes -/

/-- The lexemes of pieces that start at a place, behind a line break or not. -/
def lexemesFrom : (start : Nat) → (newline : Bool) → List Piece → List Lexeme
  | _, _, [] => []
  | start, newline, p :: ps =>
    match p.kind with
    | .token t => ⟨t, start, newline⟩ :: lexemesFrom (start + byteLength p.text) false ps
    | _ => lexemesFrom (start + byteLength p.text) (newline || p.text.contains '\n') ps

/-- The faults among pieces that start at a place. -/
def errorsFrom : (start : Nat) → List Piece → List LexicalError
  | _, [] => []
  | start, p :: ps =>
    match p.kind with
    | .fault f => ⟨start, f⟩ :: errorsFrom (start + byteLength p.text) ps
    | _ => errorsFrom (start + byteLength p.text) ps

section Scans

variable {start : Nat} {newline : Bool} {ps : List Piece}

/-- Appending pieces one by one comes to the same as going through them once. -/
theorem Scan.foldl_add (s : Scan) (ps : List Piece) :
    (ps.foldl Scan.add s).lexemes = (lexemesFrom s.size s.newlineAtEnd ps).reverse ++ s.lexemes ∧
      (ps.foldl Scan.add s).errors = (errorsFrom s.size ps).reverse ++ s.errors ∧
      (ps.foldl Scan.add s).size = s.size + byteLength (ps.flatMap Piece.text) := by
  induction ps generalizing s with
  | nil => exact ⟨rfl, rfl, rfl⟩
  | cons p ps ih =>
      obtain ⟨hlexemes, herrors, hsize⟩ := ih (s.add p)
      obtain ⟨kind, text⟩ := p
      rw [List.foldl_cons, hlexemes, herrors, hsize, List.flatMap_cons, byteLength_append,
        ← Nat.add_assoc, lexemesFrom, errorsFrom]
      cases kind <;> simp [Scan.add]

theorem Scan.ofPieces_lexemes (ps : List Piece) :
    (Scan.ofPieces ps).lexemes = lexemesFrom 0 false ps := by
  simp [Scan.ofPieces, Scan.foldl_add, Scan.empty]

theorem Scan.ofPieces_errors (ps : List Piece) : (Scan.ofPieces ps).errors = errorsFrom 0 ps := by
  simp [Scan.ofPieces, Scan.foldl_add, Scan.empty]

theorem Scan.ofPieces_size (cs : List Char) : (Scan.ofPieces (pieces cs)).size = byteLength cs := by
  simp [Scan.ofPieces, Scan.foldl_add, Scan.empty, flatMap_text_pieces]

theorem lexemesFrom_append (start : Nat) (newline : Bool) (ps qs : List Piece) :
    ∃ newline', lexemesFrom start newline (ps ++ qs) = lexemesFrom start newline ps ++
      lexemesFrom (start + byteLength (ps.flatMap Piece.text)) newline' qs := by
  induction ps generalizing start newline with
  | nil => exact ⟨newline, rfl⟩
  | cons p ps ih =>
      rw [List.flatMap_cons, byteLength_append, ← Nat.add_assoc, List.cons_append, lexemesFrom,
        lexemesFrom]
      split
      · obtain ⟨newline', h⟩ := ih (start + byteLength p.text) false
        exact ⟨newline', by rw [h, List.cons_append]⟩
      · exact ih _ _

theorem errorsFrom_append (start : Nat) (ps qs : List Piece) :
    errorsFrom start (ps ++ qs) =
      errorsFrom start ps ++ errorsFrom (start + byteLength (ps.flatMap Piece.text)) qs := by
  induction ps generalizing start with
  | nil => rfl
  | cons p ps ih =>
      rw [List.flatMap_cons, byteLength_append, ← Nat.add_assoc, List.cons_append, errorsFrom,
        errorsFrom, ih]
      split <;> rfl

/-- Lexemes of a text further behind are moved there. -/
theorem lexemesFrom_add (start k : Nat) (newline : Bool) (ps : List Piece) :
    lexemesFrom (start + k) newline ps =
      (lexemesFrom start newline ps).map (Lexeme.move (· + k)) := by
  induction ps generalizing start newline with
  | nil => rfl
  | cons p ps ih =>
      rw [lexemesFrom, lexemesFrom, Nat.add_right_comm, ih, ih]
      split <;> rfl

theorem errorsFrom_add (start k : Nat) (ps : List Piece) :
    errorsFrom (start + k) ps =
      (errorsFrom start ps).map fun e ↦ { e with offset := e.offset + k } := by
  induction ps generalizing start with
  | nil => rfl
  | cons p ps ih =>
      rw [errorsFrom, errorsFrom, Nat.add_right_comm, ih]
      split <;> rfl

theorem offset_lt_of_mem_lexemesFrom (hps : ∀ p ∈ ps, p.text ≠ []) {l : Lexeme}
    (h : l ∈ lexemesFrom start newline ps) :
    l.offset < start + byteLength (ps.flatMap Piece.text) := by
  induction ps generalizing start newline with
  | nil => cases h
  | cons p ps ih =>
      rw [List.forall_mem_cons] at hps
      have hpos := byteLength_pos hps.1
      rw [List.flatMap_cons, byteLength_append]
      rw [lexemesFrom] at h
      split at h
      · rcases List.mem_cons.mp h with rfl | h
        · dsimp only
          omega
        · have hlt := ih hps.2 h
          omega
      · have hlt := ih hps.2 h
        omega

theorem offset_lt_of_mem_errorsFrom (hps : ∀ p ∈ ps, p.text ≠ []) {e : LexicalError}
    (h : e ∈ errorsFrom start ps) : e.offset < start + byteLength (ps.flatMap Piece.text) := by
  induction ps generalizing start with
  | nil => cases h
  | cons p ps ih =>
      rw [List.forall_mem_cons] at hps
      have hpos := byteLength_pos hps.1
      rw [List.flatMap_cons, byteLength_append]
      rw [errorsFrom] at h
      split at h
      · rcases List.mem_cons.mp h with rfl | h
        · dsimp only
          omega
        · have hlt := ih hps.2 h
          omega
      · have hlt := ih hps.2 h
        omega

/-- Every fault is reported. -/
theorem exists_mem_errorsFrom {p : Piece} (hp : p ∈ ps) {f : LexicalFault}
    (hkind : p.kind = .fault f) (start : Nat) : ∃ e ∈ errorsFrom start ps, e.fault = f := by
  induction ps generalizing start with
  | nil => cases hp
  | cons q ps ih =>
      rw [errorsFrom]
      rcases List.mem_cons.mp hp with rfl | hp
      · rw [hkind]
        exact ⟨_, List.mem_cons_self, rfl⟩
      · obtain ⟨e, he, hfault⟩ := ih hp (start + byteLength q.text)
        split
        · exact ⟨e, List.mem_cons_of_mem _ he, hfault⟩
        · exact ⟨e, he, hfault⟩

theorem text_ne_nil_of_mem_pieces {p : Piece} {cs : List Char} (h : p ∈ pieces cs) :
    p.text ≠ [] := by
  obtain ⟨c, ds, rest, hfirst⟩ := exists_first_of_mem_pieces h
  have hne := Piece.first_text_ne_nil c ds
  rwa [hfirst] at hne

end Scans

end PipedCompiler.Language
