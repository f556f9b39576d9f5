import PipedCompiler.Proofs.Language.Moving
import PipedCompiler.Proofs.Text.Returns

/-!
# Line endings

It makes no difference to a module whether its lines end in a line feed or in a carriage return and
a line feed.  The added carriage returns are white space, or they end up in a comment or in a string
that is not closed.  So the pieces of the text are the same but for these characters, its tokens and
faults are at other offsets, but at the same lines and columns, and everything that is made of them
is the same.
-/

namespace PipedCompiler.Language

open PipedCompiler.Text

/-! ## Pieces -/

/-- The piece with a carriage return before every line feed. -/
def Piece.withReturns (p : Piece) : Piece := ⟨p.kind, Text.withReturns p.text⟩

section Pieces

variable {c quote : Char} {cs value taken : List Char}

theorem numberRest_withReturns (cs : List Char) :
    numberRest (withReturns cs) = ((numberRest cs).1, withReturns (numberRest cs).2) := by
  have hreturn : Char.isDigit '\r' = false := rfl
  have hfeed : Char.isDigit '\n' = false := rfl
  rw [numberRest, numberRest, takeWhile_withReturns hreturn hfeed,
    dropWhile_withReturns hreturn hfeed]
  cases cs.dropWhile Char.isDigit with
  | nil => rfl
  | cons d ds =>
      by_cases hpoint : d = '.'
      · subst hpoint
        rw [withReturns_cons (by decide)]
        simp only [takeWhile_withReturns hreturn hfeed, dropWhile_withReturns hreturn hfeed]
      · by_cases hd : d = '\n'
        · subst hd
          rfl
        · rw [withReturns_cons hd]
          simp [hpoint, withReturns_cons hd]

theorem lineFeed_notMem_numberRest (cs : List Char) : '\n' ∉ (numberRest cs).1 := by
  have hfeed : Char.isDigit '\n' = false := rfl
  rw [numberRest]
  split
  · rw [List.mem_append, List.mem_cons, not_or, not_or]
    exact ⟨lineFeed_notMem_takeWhile hfeed cs, by decide, lineFeed_notMem_takeWhile hfeed _⟩
  · exact lineFeed_notMem_takeWhile hfeed cs

/-- A comment to the end of its line takes the carriage return there. -/
theorem lineComment_withReturns (cs : List Char) :
    lineComment (withReturns cs) = ((lineComment cs).1, withReturns (lineComment cs).2) ∨
      ∃ more, (lineComment cs).2 = '\n' :: more ∧
        lineComment (withReturns cs) =
          ((lineComment cs).1 ++ ['\r'], '\n' :: withReturns more) := by
  induction cs with
  | nil => exact .inl rfl
  | cons c cs ih =>
      by_cases hc : c = '\n'
      · subst hc
        exact .inr ⟨cs, rfl, rfl⟩
      · simpa [withReturns_cons hc, lineComment, hc] using ih

/-- A block comment is closed where it was, and takes what was added to it. -/
theorem blockComment_withReturns {taken' : List Char}
    (htaken : taken'.reverse = withReturns taken.reverse) :
    blockComment taken' (withReturns cs) =
      ((blockComment taken cs).1, withReturns (blockComment taken cs).2.1,
        withReturns (blockComment taken cs).2.2) := by
  fun_induction blockComment taken cs generalizing taken' with
  | case1 taken => simp [blockComment, htaken]
  | case2 taken cs =>
      rw [withReturns_cons (by decide), withReturns_cons (by decide)]
      simp [blockComment, htaken, withReturns_cons]
  | case3 taken c cs hopen ih =>
      by_cases hc : c = '\n'
      · subst hc
        have hnext : ('\n' :: '\r' :: taken').reverse = withReturns ('\n' :: taken).reverse := by
          simp [htaken]
        rw [← ih hnext, withReturns_lineFeed]
        simp [blockComment]
      · have hnext : (c :: taken').reverse = withReturns (c :: taken).reverse := by
          simp [htaken, withReturns_cons hc]
        rw [← ih hnext, withReturns_cons hc, blockComment.eq_3]
        rintro more rfl hmore
        cases cs with
        | nil => cases hmore
        | cons d cs =>
            by_cases hd : d = '\n'
            · subst hd
              cases hmore
            · rw [withReturns_cons hd] at hmore
              obtain ⟨rfl, -⟩ := List.cons.inj hmore
              exact hopen cs rfl rfl

/-- No string goes on behind its line. -/
theorem lineFeed_notMem_stringRest (hquote : quote ≠ '\n') (htaken : '\n' ∉ taken)
    (value cs : List Char) :
    '\n' ∉ (stringRest quote value taken cs).2.1 := by
  fun_induction stringRest quote value taken cs with
  | case1 => simpa using htaken
  | case2 => simpa using htaken
  | case3 => simpa using ⟨htaken, hquote.symm⟩
  | case4 => simpa using htaken
  | case5 => simpa using htaken
  | case6 value taken e cs hline _ _ ih =>
      exact ih (by simpa using ⟨Ne.symm hline, htaken⟩)
  | case7 value taken c cs hline _ _ ih =>
      exact ih (by simpa using ⟨Ne.symm hline, htaken⟩)

/-- A string that is at the end of its line is not closed. -/
theorem stringRest_lineFeed (quote : Char) (value taken rest : List Char) :
    stringRest quote value taken ('\n' :: rest) = (none, taken.reverse, '\n' :: rest) := by
  rw [stringRest.eq_def]
  rfl

/-- A string that is at the carriage return before the end of its line takes it. -/
theorem stringRest_lineBreak_withReturns (hquote : quote ≠ '\r') (rest : List Char) :
    stringRest quote value taken ('\r' :: '\n' :: rest) =
      (none, taken.reverse ++ ['\r'], '\n' :: rest) := by
  rw [stringRest.eq_def]
  simp [hquote.symm, stringRest_lineFeed]

/-- A string is closed where it was, or it is not closed and takes the carriage return at the end of
its line. -/
theorem stringRest_withReturns (hquote : quote ≠ '\r') (value taken cs : List Char) :
    stringRest quote value taken (withReturns cs) =
        ((stringRest quote value taken cs).1, (stringRest quote value taken cs).2.1,
          withReturns (stringRest quote value taken cs).2.2) ∨
      (stringRest quote value taken cs).1 = none ∧
        ∃ more, (stringRest quote value taken cs).2.2 = '\n' :: more ∧
          stringRest quote value taken (withReturns cs) =
            (none, (stringRest quote value taken cs).2.1 ++ ['\r'],
              '\n' :: withReturns more) := by
  fun_induction stringRest quote value taken cs with
  | case1 value taken => exact .inl rfl
  | case2 value taken cs =>
      exact .inr ⟨rfl, cs, rfl, stringRest_lineBreak_withReturns hquote _⟩
  | case3 value taken cs hline =>
      refine .inl ?_
      rw [withReturns_cons hline, stringRest.eq_def]
      simp [hline]
  | case4 value taken hline hquote' =>
      refine .inl ?_
      rw [withReturns_cons hline, stringRest.eq_def]
      simp [hquote']
  | case5 value taken cs _ hquote' =>
      refine .inr ⟨rfl, cs, rfl, ?_⟩
      rw [withReturns_cons (by decide), withReturns_lineFeed, stringRest.eq_def]
      simp [hquote', stringRest_lineFeed]
  | case6 value taken e cs hbreak _ hquote' ih =>
      rw [withReturns_cons (by decide), withReturns_cons hbreak, stringRest.eq_def]
      simpa [hquote', hbreak] using ih
  | case7 value taken c cs hline hquote' hbackslash ih =>
      rw [withReturns_cons hline, stringRest.eq_def]
      simpa [hline, hquote', hbackslash] using ih

/-- Whether a piece and what is left are cut alike where lines have got other endings.  A piece
takes the carriage returns that are added within it; and if it is no token and stands at the end of
a line, it may take the one there. -/
def CutAlike (cut cut' : Piece × List Char) : Prop :=
  cut' = (cut.1.withReturns, withReturns cut.2) ∨
    (∀ t, cut.1.kind ≠ .token t) ∧ ∃ more, cut.2 = '\n' :: more ∧
      cut' = (⟨cut.1.kind, withReturns cut.1.text ++ ['\r']⟩, '\n' :: withReturns more)

/-- A piece within a line stays as it is. -/
theorem CutAlike.within_line {p : Piece} (h : '\n' ∉ p.text) (rest : List Char) :
    CutAlike (p, rest) (p, withReturns rest) := by
  refine .inl ?_
  rw [Piece.withReturns, withReturns_of_notMem h]

theorem cutAlike_lineComment (hc : c ≠ '\n') (cs : List Char) :
    CutAlike (⟨.gap, c :: (lineComment cs).1⟩, (lineComment cs).2)
      (⟨.gap, c :: (lineComment (withReturns cs)).1⟩, (lineComment (withReturns cs)).2) := by
  have hline : '\n' ∉ c :: (lineComment cs).1 := by
    rw [List.mem_cons, not_or]
    exact ⟨hc.symm, lineFeed_notMem_takeWhile rfl cs⟩
  rcases lineComment_withReturns cs with hsame | ⟨more, hmore, hsame⟩
  · rw [hsame]
    exact .within_line hline _
  · refine .inr ⟨nofun, more, hmore, ?_⟩
    rw [hsame, withReturns_of_notMem hline]
    rfl

/-- What has been read of a string as a piece, in front of what is left. -/
theorem cutAlike_string (hc : c ≠ '\n') (hreturn : c ≠ '\r') (cs : List Char) :
    CutAlike
      (match (stringRest c [] [c] cs).1 with
        | some value => (⟨.token (.str (String.ofList value)), (stringRest c [] [c] cs).2.1⟩,
            (stringRest c [] [c] cs).2.2)
        | none => (⟨.fault .unterminatedString, (stringRest c [] [c] cs).2.1⟩,
            (stringRest c [] [c] cs).2.2))
      (match (stringRest c [] [c] (withReturns cs)).1 with
        | some value => (⟨.token (.str (String.ofList value)),
            (stringRest c [] [c] (withReturns cs)).2.1⟩, (stringRest c [] [c] (withReturns cs)).2.2)
        | none => (⟨.fault .unterminatedString, (stringRest c [] [c] (withReturns cs)).2.1⟩,
            (stringRest c [] [c] (withReturns cs)).2.2)) := by
  have hstart : '\n' ∉ [c] := by simpa using hc.symm
  have hline := lineFeed_notMem_stringRest hc hstart [] cs
  rcases stringRest_withReturns hreturn [] [c] cs with hsame | ⟨hopen, more, hmore, hsame⟩
  · rw [hsame]
    dsimp only
    split
    · exact .within_line hline _
    · exact .within_line hline _
  · rw [hsame, hopen]
    refine .inr ⟨nofun, more, hmore, ?_⟩
    rw [withReturns_of_notMem hline]

/-- What a piece is does not depend on line endings. -/
theorem Piece.first_withReturns (hc : c ≠ '\n') (cs : List Char) :
    CutAlike (Piece.first c cs) (Piece.first c (Text.withReturns cs)) := by
  have hself : '\n' ∉ [c] := by simpa using hc.symm
  have hword : continuesWord '\r' = false := by decide +kernel
  have hword' : continuesWord '\n' = false := by decide +kernel
  unfold Piece.first
  rw [head?_withReturns (by decide) (by decide), head?_withReturns (by decide) (by decide)]
  split
  · exact .within_line hself cs
  split
  · exact cutAlike_lineComment hc cs
  split
  · next hblock =>
    rw [Bool.and_eq_true, beq_iff_eq] at hblock
    obtain ⟨cs, rfl⟩ := List.head?_eq_some_iff.mp hblock.2
    have hopened : ['*', '/'].reverse = Text.withReturns ['*', '/'].reverse := rfl
    rw [withReturns_cons (by decide), List.tail_cons, List.tail_cons,
      blockComment_withReturns hopened]
    exact .inl rfl
  split
  · next hquoted =>
    have hreturn : c ≠ '\r' := by
      rintro rfl
      revert hquoted
      decide
    exact cutAlike_string hc hreturn cs
  split
  · have hline : '\n' ∉ c :: (numberRest cs).1 := by
      rw [List.mem_cons, not_or]
      exact ⟨hc.symm, lineFeed_notMem_numberRest cs⟩
    rw [numberRest_withReturns]
    exact .within_line hline _
  split
  · have hline : '\n' ∉ c :: cs.takeWhile continuesWord := by
      rw [List.mem_cons, not_or]
      exact ⟨hc.symm, lineFeed_notMem_takeWhile hword' cs⟩
    rw [takeWhile_withReturns hword hword', dropWhile_withReturns hword hword']
    exact .within_line hline _
  -- what is left takes one character, or two if an operator is followed by an equals sign
  cases operator? c with
  | none =>
      dsimp only
      split <;> exact .within_line hself cs
  | some op =>
      cases cs with
      | nil => exact .within_line hself []
      | cons d cs =>
          by_cases hd : d = '='
          · subst hd
            exact .within_line (by simpa using hc.symm) cs
          · by_cases hfeed : d = '\n'
            · subst hfeed
              exact .within_line hself ('\n' :: cs)
            · rw [withReturns_cons hfeed]
              simpa [hd, withReturns_cons hfeed] using
                CutAlike.within_line (p := ⟨.token (.operator op), [c]⟩) hself (d :: cs)

end Pieces

/-! ## Scans -/

/-- How the pieces of a text change when its lines get other endings. -/
inductive Recut : List Piece → List Piece → Prop where
  | nil : Recut [] []
  /-- A piece takes the carriage returns that are added within it. -/
  | within (p : Piece) {ps qs : List Piece} : Recut ps qs → Recut (p :: ps) (p.withReturns :: qs)
  /-- A line feed that stands alone gets a carriage return that stands alone. -/
  | lineFeed {ps qs : List Piece} : Recut ps qs →
      Recut (⟨.gap, ['\n']⟩ :: ps) (⟨.gap, ['\r']⟩ :: ⟨.gap, ['\n']⟩ :: qs)
  /-- A piece that is no token may take the carriage return at the end of its line. -/
  | lineEnd (p : Piece) {ps qs : List Piece} : (∀ t, p.kind ≠ .token t) → Recut ps qs →
      Recut (p :: ⟨.gap, ['\n']⟩ :: ps)
        (⟨p.kind, Text.withReturns p.text ++ ['\r']⟩ :: ⟨.gap, ['\n']⟩ :: qs)

theorem recut_pieces (cs : List Char) : Recut (pieces cs) (pieces (withReturns cs)) := by
  have hfeed : isBlank '\n' = true := by decide
  have hreturn : isBlank '\r' = true := by decide
  generalize hn : cs.length = n
  induction n using Nat.strongRecOn generalizing cs with
  | ind n ih =>
      cases cs with
      | nil =>
          rw [withReturns_nil, pieces_nil]
          exact .nil
      | cons c cs =>
          rw [List.length_cons] at hn
          by_cases hc : c = '\n'
          · subst hc
            rw [withReturns_lineFeed, pieces_blank hfeed, pieces_blank hreturn, pieces_blank hfeed]
            exact .lineFeed (ih _ (by omega) cs rfl)
          · have hlt := Piece.first_length c cs
            rw [withReturns_cons hc, pieces_cons, pieces_cons]
            rcases Piece.first_withReturns hc cs with hsame | ⟨hkind, more, hmore, hsame⟩
            · rw [hsame]
              exact .within _ (ih _ (by omega) _ rfl)
            · rw [hmore, List.length_cons] at hlt
              rw [hsame, hmore, pieces_blank hfeed, pieces_blank hfeed]
              exact .lineEnd _ hkind (ih _ (by omega) more rfl)

theorem Piece.isUnreadable_lineFeed (kind : PieceKind) :
    Piece.isUnreadable ⟨kind, ['\n']⟩ = false := by
  cases kind with
  | token t => cases t <;> rfl
  | _ => rfl

theorem Piece.isUnreadable_withReturns (p : Piece) :
    p.withReturns.isUnreadable = p.isUnreadable := by
  obtain ⟨kind, text⟩ := p
  rw [Piece.withReturns]
  rcases text with _ | ⟨c, _ | ⟨d, text⟩⟩
  · rfl
  · by_cases hc : c = '\n'
    · subst hc
      rw [withReturns_lineFeed, Piece.isUnreadable_cons_cons, Piece.isUnreadable_lineFeed]
    · rw [withReturns_cons hc]
      rfl
  · rw [Piece.isUnreadable_cons_cons]
    by_cases hc : c = '\n'
    · subst hc
      rw [withReturns_lineFeed, Piece.isUnreadable_cons_cons]
    · rw [withReturns_cons hc]
      by_cases hd : d = '\n'
      · subst hd
        rw [withReturns_lineFeed, Piece.isUnreadable_cons_cons]
      · rw [withReturns_cons hd, Piece.isUnreadable_cons_cons]

theorem Recut.any_isUnreadable {ps qs : List Piece} (h : Recut ps qs) :
    qs.any Piece.isUnreadable = ps.any Piece.isUnreadable := by
  induction h with
  | nil => rfl
  | within p _ ih => rw [List.any_cons, List.any_cons, Piece.isUnreadable_withReturns, ih]
  | lineFeed _ ih => simpa [Piece.isUnreadable] using ih
  | lineEnd p hkind _ ih =>
      obtain ⟨kind, text⟩ := p
      cases kind with
      | token t => exact absurd rfl (hkind t)
      | gap => simpa [Piece.isUnreadable] using ih
      | fault f => simpa [Piece.isUnreadable] using ih

/-- A piece adds the same to a scan whose parts are at other places, if it ends where it should. -/
theorem Scan.add_move {g : Nat → Nat} {s : Scan} {p q : Piece} (hkind : q.kind = p.kind)
    (hsize : g s.size + byteLength q.text = g (s.size + byteLength p.text))
    (hbreak : q.text.contains '\n' = p.text.contains '\n') :
    (s.move g).add q = (s.add p).move g := by
  have hplace : (s.move g).size + byteLength q.text = g (s.size + byteLength p.text) := hsize
  rw [Scan.add, Scan.add, hkind, hplace, hbreak]
  cases p.kind <;> rfl

theorem Scan.size_add (s : Scan) (p : Piece) : (s.add p).size = s.size + byteLength p.text := by
  rw [Scan.add]
  cases p.kind <;> rfl

theorem Scan.add_lineFeed (s : Scan) :
    s.add ⟨.gap, ['\n']⟩ = ⟨s.lexemes, s.errors, s.size + 1, true⟩ := by
  simp [Scan.add, byteLength, Char.utf8Size]

/-- Before a line feed, it does not matter how long a piece is that is no token. -/
theorem Scan.add_add_lineFeed {g : Nat → Nat} {s : Scan} {p q : Piece} (hkind : q.kind = p.kind)
    (htoken : ∀ t, p.kind ≠ .token t)
    (hsize : g s.size + (byteLength q.text + 1) = g (s.size + (byteLength p.text + 1))) :
    ((s.move g).add q).add ⟨.gap, ['\n']⟩ = ((s.add p).add ⟨.gap, ['\n']⟩).move g := by
  have hplace : ((s.move g).add q).size + 1 = g ((s.add p).size + 1) := by
    rw [Scan.size_add, Scan.size_add, Nat.add_assoc, Nat.add_assoc]
    exact hsize
  rw [Scan.add_lineFeed, Scan.add_lineFeed, hplace, Scan.add, Scan.add, hkind]
  cases hp : p.kind with
  | token t => exact absurd hp (htoken t)
  | gap => rfl
  | fault f => rfl

/-- Whether places in a text are taken to those in the text with the other endings. -/
def TakesPlaces (g : Nat → Nat) (text : List Char) : Prop :=
  ∀ cs ds, cs ++ ds = text → g (byteLength cs) = byteLength (withReturns cs)

theorem TakesPlaces.add {g : Nat → Nat} {before cs ds : List Char}
    (h : TakesPlaces g (before ++ (cs ++ ds))) :
    g (byteLength before + byteLength cs) =
      g (byteLength before) + byteLength (withReturns cs) := by
  have hread := h (before ++ cs) ds (List.append_assoc _ _ _)
  rw [byteLength_append, withReturns_append, byteLength_append, ← h before _ rfl] at hread
  exact hread

/-- The scan of the text whose lines have got other endings, from some place on. -/
theorem Recut.foldl_add {ps qs : List Piece} (h : Recut ps qs) {g : Nat → Nat} {before : List Char}
    (hg : TakesPlaces g (before ++ ps.flatMap Piece.text)) {s : Scan}
    (hs : s.size = byteLength before) :
    qs.foldl Scan.add (s.move g) = (ps.foldl Scan.add s).move g := by
  induction h generalizing before s with
  | nil => rfl
  | within p _ ih =>
      rw [List.flatMap_cons] at hg
      have hadd : (s.move g).add p.withReturns = (s.add p).move g :=
        Scan.add_move rfl (by rw [hs, hg.add]; rfl) (contains_withReturns p.text)
      rw [List.foldl_cons, List.foldl_cons, hadd]
      rw [← List.append_assoc] at hg
      exact ih hg (by rw [Scan.size_add, hs, byteLength_append])
  | lineFeed _ ih =>
      rw [List.flatMap_cons] at hg
      have hadd : ((s.move g).add ⟨.gap, ['\r']⟩).add ⟨.gap, ['\n']⟩ =
          (s.add ⟨.gap, ['\n']⟩).move g := by
        have hsize : g s.size + 2 = g (s.size + 1) := by
          rw [hs]
          exact hg.add.symm
        rw [Scan.add_lineFeed, Scan.add_lineFeed]
        exact congrArg (Scan.mk (s.move g).lexemes (s.move g).errors · true) hsize
      rw [List.foldl_cons, List.foldl_cons, List.foldl_cons, hadd]
      rw [← List.append_assoc] at hg
      exact ih hg (by rw [Scan.size_add, hs, byteLength_append])
  | lineEnd p hkind _ ih =>
      rw [List.flatMap_cons, List.flatMap_cons, ← List.append_assoc p.text] at hg
      have hadd : ((s.move g).add ⟨p.kind, Text.withReturns p.text ++ ['\r']⟩).add
          ⟨.gap, ['\n']⟩ = ((s.add p).add ⟨.gap, ['\n']⟩).move g := by
        refine Scan.add_add_lineFeed rfl hkind ?_
        have hplace := hg.add
        rw [byteLength_append, withReturns_append, byteLength_append] at hplace
        rw [hs, byteLength_append]
        exact hplace.symm
      rw [List.foldl_cons, List.foldl_cons, List.foldl_cons, List.foldl_cons, hadd]
      rw [← List.append_assoc] at hg
      refine ih hg ?_
      rw [Scan.size_add, Scan.size_add, hs, byteLength_append, byteLength_append, Nat.add_assoc]

/-- A text whose lines have got other endings is scanned like the text, but for the places. -/
theorem Scan.ofText?_withReturns (cs : List Char) :
    Scan.ofText? (withReturns cs) =
      (Scan.ofText? cs).map (Scan.move (placeWithReturns cs)) := by
  have hrecut := recut_pieces cs
  have hplaces : TakesPlaces (placeWithReturns cs) ([] ++ (pieces cs).flatMap Piece.text) := by
    rintro before behind hsplit
    rw [List.nil_append, flatMap_text_pieces] at hsplit
    rw [← hsplit, placeWithReturns_byteLength]
  have hscan : Scan.ofPieces (pieces (withReturns cs)) =
      (Scan.ofPieces (pieces cs)).move (placeWithReturns cs) := by
    have hfold := hrecut.foldl_add hplaces (s := Scan.empty) rfl
    have hempty : Scan.empty.move (placeWithReturns cs) = Scan.empty := by
      have hstart := hplaces [] _ rfl
      rw [Scan.move, Scan.empty]
      exact congrArg (Scan.mk [] [] · false) hstart
    rw [hempty] at hfold
    rw [Scan.ofPieces, Scan.ofPieces, hfold]
    simp [Scan.move]
  rw [Scan.ofText?, Scan.ofText?, hrecut.any_isUnreadable, hscan]
  split <;> rfl

theorem SyntaxTree.ofText?_withReturns (cs : List Char) :
    ofText? (withReturns cs) = (ofText? cs).map (move (placeWithReturns cs)) := by
  rw [ofText?, ofText?, Scan.ofText?_withReturns, Option.map_map, Option.map_map]
  exact congrArg (Option.map · _)
    (funext fun s ↦ SyntaxTree.ofScan_move (placeWithReturns_le_iff cs) s)

/-! ## Files -/

/-- What a lexeme is, and the line and column it is shown at. -/
def Lexeme.shown (cs : List Char) (l : Lexeme) : Token × Bool × Position :=
  (l.token, l.newlineBefore, position cs l.offset)

/-- What a lexical error is, and the line and column it is shown at. -/
def LexicalError.shown (cs : List Char) (e : LexicalError) : LexicalFault × Position :=
  (e.fault, position cs e.offset)

/-- What is said about a syntax error, and the line and column it is shown at. -/
def SyntaxError.shown (cs : List Char) (e : SyntaxError) : String × String × Position :=
  (e.fault.code, e.fault.message, position cs e.offset)

section Files

variable {f f' : SourceFile}

theorem ShownAlike.of_withReturns (hpath : f'.path = f.path)
    (hchars : f'.chars = withReturns f.chars) : ShownAlike (placeWithReturns f.chars) f f' where
  path := hpath
  position offset := by rw [hchars, position_withReturns]

theorem ShownAlike.lexemes {g : Nat → Nat} (h : ShownAlike g f f') (ls : List Lexeme) :
    (ls.map (Lexeme.move g)).map (Lexeme.shown f'.chars) = ls.map (Lexeme.shown f.chars) := by
  rw [List.map_map]
  exact List.map_congr_left fun l _ ↦
    congrArg (fun p ↦ (l.token, l.newlineBefore, p)) (h.position l.offset)

theorem ShownAlike.lexicalErrors {g : Nat → Nat} (h : ShownAlike g f f')
    (es : List LexicalError) :
    (es.map (LexicalError.move g)).map (LexicalError.shown f'.chars) =
      es.map (LexicalError.shown f.chars) := by
  rw [List.map_map]
  exact List.map_congr_left fun e _ ↦ congrArg (Prod.mk e.fault) (h.position e.offset)

theorem ShownAlike.syntaxErrors {g : Nat → Nat} (h : ShownAlike g f f') (es : List SyntaxError) :
    (es.map (SyntaxError.move g)).map (SyntaxError.shown f'.chars) =
      es.map (SyntaxError.shown f.chars) := by
  rw [List.map_map]
  refine List.map_congr_left fun e _ ↦ ?_
  rw [Function.comp_apply, SyntaxError.shown, SyntaxError.move, SyntaxFault.code_move,
    SyntaxFault.message_move, h.position, SyntaxError.shown]

/-- A file whose lines have got other endings has the same tokens, the same statements and the same
errors at the same lines and columns; the same is said about it, and the same text is emitted. -/
theorem file_withReturns {scan : Scan} (hpath : f'.path = f.path)
    (hchars : f'.chars = withReturns f.chars) (hscan : Scan.ofText? f.chars = some scan) :
    ∃ scan' tree tree', Scan.ofText? f'.chars = some scan' ∧
      scan'.lexemes.map (Lexeme.shown f'.chars) = scan.lexemes.map (Lexeme.shown f.chars) ∧
      scan'.errors.map (LexicalError.shown f'.chars) =
        scan.errors.map (LexicalError.shown f.chars) ∧
      position f'.chars scan'.size = position f.chars scan.size ∧
      scan'.newlineAtEnd = scan.newlineAtEnd ∧
      SyntaxTree.ofText? f.chars = some tree ∧ SyntaxTree.ofText? f'.chars = some tree' ∧
      tree'.statements = tree.statements.map (Stmt.move (placeWithReturns f.chars)) ∧
      tree'.errors.map (SyntaxError.shown f'.chars) = tree.errors.map (SyntaxError.shown f.chars) ∧
      tree'.imports = tree.imports.map (Import.move (placeWithReturns f.chars)) ∧
      (∀ unresolved unresolved',
        unresolved' = unresolved.map (Import.move (placeWithReturns f.chars)) →
        Compile.LoadedFile.syntaxDiagnostics ⟨f', tree', unresolved'⟩ =
            Compile.LoadedFile.syntaxDiagnostics ⟨f, tree, unresolved⟩ ∧
          Compile.LoadedFile.importDiagnostics ⟨f', tree', unresolved'⟩ =
            Compile.LoadedFile.importDiagnostics ⟨f, tree, unresolved⟩) ∧
      (∀ globals, checkNames f' globals tree'.statements = checkNames f globals tree.statements) ∧
      ∀ target newLine,
        emit target newLine tree'.statements = emit target newLine tree.statements := by
  have hshown := ShownAlike.of_withReturns hpath hchars
  have hscan' := Scan.ofText?_withReturns f.chars
  rw [← hchars, hscan] at hscan'
  have htree : SyntaxTree.ofText? f.chars = some (.ofScan scan) := by
    rw [SyntaxTree.ofText?, hscan]
    rfl
  have htree' := SyntaxTree.ofText?_withReturns f.chars
  rw [← hchars, htree] at htree'
  refine ⟨_, _, _, hscan', hshown.lexemes scan.lexemes, hshown.lexicalErrors scan.errors,
    hshown.position scan.size, rfl, htree, htree', rfl, hshown.syntaxErrors _,
    SyntaxTree.imports_move _ _, ?_, fun globals ↦ hshown.checkNames globals _,
    fun target newLine ↦ emit_map_move _ target newLine _⟩
  rintro unresolved _ rfl
  exact ⟨hshown.syntaxDiagnostics _ _ _, hshown.importDiagnostics _ _ _⟩

/-- A file with line breaks in a comment, and in a string behind a backslash. -/
def brokenString : SourceFile := ⟨"/a.ts", "/* 1\n2 */ let x = 'a\\\nf(y) # 3".toList, .es5⟩

/-- The same file with the other line endings. -/
def brokenString' : SourceFile := { brokenString with chars := withReturns brokenString.chars }

theorem file_withReturns_brokenString :
    ∃ scan scan', Scan.ofText? brokenString.chars = some scan ∧
      scan.errors = [⟨18, .unterminatedString⟩, ⟨27, .invalidCharacter⟩] ∧
      Scan.ofText? brokenString'.chars = some scan' ∧
      scan'.errors = [⟨19, .unterminatedString⟩, ⟨29, .invalidCharacter⟩] ∧
      scan'.lexemes.map (Lexeme.shown brokenString'.chars) =
        scan.lexemes.map (Lexeme.shown brokenString.chars) := by
  obtain ⟨scan, hscan⟩ : ∃ scan, Scan.ofText? brokenString.chars = some scan :=
    Option.isSome_iff_exists.mp (by decide +kernel)
  have herrors : (Scan.ofText? brokenString.chars).map Scan.errors =
      some [⟨18, .unterminatedString⟩, ⟨27, .invalidCharacter⟩] := by decide +kernel
  have herrors' : (Scan.ofText? brokenString'.chars).map Scan.errors =
      some [⟨19, .unterminatedString⟩, ⟨29, .invalidCharacter⟩] := by decide +kernel
  have hpath : brokenString'.path = brokenString.path := rfl
  obtain ⟨scan', -, -, hscan', hlexemes, -⟩ := file_withReturns hpath rfl hscan
  rw [hscan] at herrors
  rw [hscan'] at herrors'
  exact ⟨scan, scan', hscan, Option.some.inj herrors, hscan', Option.some.inj herrors', hlexemes⟩

end Files

end PipedCompiler.Language
