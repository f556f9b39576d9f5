import PipedCompiler.Proofs.Language.Cutting
import PipedCompiler.Proofs.Text.Boundary

/-!
# Texts cut into tokens and gaps

A text that can be read falls into tokens and the gaps before, between and behind them.  A token is
read from its own characters alone as from the whole text.  A gap is filled with white space and
comments, and with what is wrong: characters that start nothing, strings that are not closed on
their line, and at the very end a comment that is not closed at all.  Each of these is reported
once, where it starts, and nothing else is.
-/

namespace PipedCompiler.Language

open PipedCompiler.Text

/-! ## What fills a gap -/

/-- Something that may stand between tokens. -/
inductive Filler where
  | blank (c : Char)
  | lineComment (body : List Char)
  | blockComment (body : List Char)
  | invalid (c : Char)
  /-- A string that is not closed. -/
  | openString (quote : Char) (body : List Char)
  /-- A block comment that is not closed. -/
  | openComment (body : List Char)

namespace Filler

/-- The characters of a filler. -/
def text : Filler → List Char
  | .blank c => [c]
  | .lineComment body => '/' :: '/' :: body
  | .blockComment body => '/' :: '*' :: (body ++ ['*', '/'])
  | .invalid c => [c]
  | .openString quote body => quote :: body
  | .openComment body => '/' :: '*' :: body

/-- What is wrong with a filler. -/
def fault? : Filler → Option LexicalFault
  | .blank _ => none
  | .lineComment _ => none
  | .blockComment _ => none
  | .invalid _ => some .invalidCharacter
  | .openString _ _ => some .unterminatedString
  | .openComment _ => some .unterminatedComment

end Filler

/-- Whether a line, or the text, ends before these characters. -/
def EndsLine (rest : List Char) : Prop :=
  ∀ c ∈ rest.head?, c = '\n'

/-- Whether a string of this quote is still open behind these characters.  The last of them may be
a backslash that nothing is left for. -/
inductive Unclosed (quote : Char) : List Char → Prop
  | nil : Unclosed quote []
  | backslash : Unclosed quote ['\\']
  | plain {c : Char} {cs : List Char} (hline : c ≠ '\n') (hquote : c ≠ quote)
      (hbackslash : c ≠ '\\') (h : Unclosed quote cs) : Unclosed quote (c :: cs)
  | escape {c : Char} {cs : List Char} (hline : c ≠ '\n') (h : Unclosed quote cs) :
      Unclosed quote ('\\' :: c :: cs)

/-- Whether a filler is as its kind wants it and ends where it has to, `rest` being what follows. -/
inductive Filler.Stands : Filler → (rest : List Char) → Prop
  | blank {c : Char} {rest : List Char} (h : isBlank c = true) : Stands (.blank c) rest
  | lineComment {body rest : List Char} (hbody : '\n' ∉ body) (hrest : EndsLine rest) :
      Stands (.lineComment body) rest
  /-- The first end of a comment is its end. -/
  | blockComment {body rest : List Char} (hbody : ¬ ['*', '/'] <:+: body ++ ['*']) :
      Stands (.blockComment body) rest
  | invalid {c : Char} {rest : List Char} (h : StartsNothing c) : Stands (.invalid c) rest
  | openString {quote : Char} {body rest : List Char} (hquote : quote = '"' ∨ quote = '\x27')
      (hbody : Unclosed quote body) (hrest : EndsLine rest) : Stands (.openString quote body) rest
  | openComment {body : List Char} (hbody : ¬ ['*', '/'] <:+: body) : Stands (.openComment body) []

/-- The characters of a gap. -/
def gapText (gap : List Filler) : List Char :=
  gap.flatMap Filler.text

/-- Whether fillers stand one behind the other, `rest` being what follows. -/
inductive Fills : (gap : List Filler) → (rest : List Char) → Prop
  | nil {rest : List Char} : Fills [] rest
  | cons {f : Filler} {gap : List Filler} {rest : List Char} (hf : f.Stands (gapText gap ++ rest))
      (hgap : Fills gap rest) : Fills (f :: gap) rest

/-! ## Partitions -/

/-- A token and the gap before it. -/
structure Cell where
  gap : List Filler
  token : Token
  /-- The characters of the token. -/
  text : List Char

/-- The characters of a token and of the gap before it. -/
def Cell.chars (c : Cell) : List Char :=
  gapText c.gap ++ c.text

/-- Whether a text falls into tokens with gaps before them, and a last gap.  The characters of each
token alone are read as just this token. -/
inductive Partition : List Char → List Cell → (last : List Filler) → Prop
  | last {gap : List Filler} (hgap : Fills gap []) : Partition (gapText gap) [] gap
  | cell {c : Cell} {rest : List Char} {cells : List Cell} {last : List Filler}
      (hgap : Fills c.gap (c.text ++ rest))
      (halone : Scan.ofText? c.text = some ⟨[⟨c.token, 0, false⟩], [], byteLength c.text, false⟩)
      (hrest : Partition rest cells last) : Partition (c.chars ++ rest) (c :: cells) last

/-- The lexemes of tokens with gaps before them, where the first gap starts at a byte.  A token is
behind a line break if there is one in the gap before it. -/
def cellLexemes : (start : Nat) → List Cell → List Lexeme
  | _, [] => []
  | start, c :: cells =>
    ⟨c.token, start + byteLength (gapText c.gap), decide ('\n' ∈ gapText c.gap)⟩ ::
      cellLexemes (start + byteLength c.chars) cells

/-- What is wrong in a gap that starts at a byte: each faulty filler is an error where it starts. -/
def gapErrors : (start : Nat) → List Filler → List LexicalError
  | _, [] => []
  | start, f :: gap =>
    (f.fault?.map fun fault ↦ ⟨start, fault⟩).toList ++ gapErrors (start + byteLength f.text) gap

/-- What is wrong between tokens and behind them. -/
def cellErrors (last : List Filler) : (start : Nat) → List Cell → List LexicalError
  | start, [] => gapErrors start last
  | start, c :: cells => gapErrors start c.gap ++ cellErrors last (start + byteLength c.chars) cells

/-! ## The first piece of a text -/

section First

variable {c quote : Char} {cs rest taken value body : List Char}

theorem endsLine_dropWhile (cs : List Char) : EndsLine (cs.dropWhile (· ≠ '\n')) := by
  intro d hd
  have hnot := List.head?_dropWhile_not (· ≠ '\n') cs
  rw [Option.mem_def.mp hd] at hnot
  simpa using hnot

theorem not_infix_of_cons {l : List Char} {c : Char} (hcons : ¬ l <+: c :: cs) (h : ¬ l <:+: cs) :
    ¬ l <:+: c :: cs := by
  rw [List.infix_cons_iff]
  rintro (hhere | hlater)
  · exact hcons hhere
  · exact h hlater

/-- A block comment ends at its first end, or at the end of the text. -/
theorem blockComment_cases (taken cs : List Char) :
    (∃ body rest, blockComment taken cs = (true, taken.reverse ++ body ++ ['*', '/'], rest) ∧
      ¬ ['*', '/'] <:+: body ++ ['*']) ∨
    blockComment taken cs = (false, taken.reverse ++ cs, []) ∧ ¬ ['*', '/'] <:+: cs := by
  fun_induction blockComment taken cs with
  | case1 taken => exact .inr ⟨by simp, by simp⟩
  | case2 taken cs => exact .inl ⟨[], cs, by simp, by decide⟩
  | case3 taken c cs hopen ih =>
      -- the two characters from here on are no end, since the comment does not end here
      have hhead (ds : List Char) (hds : ∀ ds', ds = '/' :: ds' → ∃ cs', cs = '/' :: cs') :
          ¬ ['*', '/'] <+: c :: ds := by
        rintro ⟨more, hmore⟩
        obtain ⟨hc, hmore⟩ := List.cons.inj hmore
        obtain ⟨cs', hcs⟩ := hds more hmore.symm
        exact hopen cs' hc.symm hcs
      rcases ih with ⟨body, rest, heq, hbody⟩ | ⟨heq, hcs⟩
      · refine .inl ⟨c :: body, rest, by rw [heq]; simp, not_infix_of_cons (hhead _ ?_) hbody⟩
        intro ds' hds'
        have happend := blockComment_append (c :: taken) cs
        rw [heq] at happend
        have hcs : cs = body ++ ('*' :: '/' :: rest) := by simpa using happend.symm
        cases body with
        | nil => simp at hds'
        | cons d body =>
            obtain ⟨rfl, -⟩ := List.cons.inj hds'
            exact ⟨_, hcs⟩
      · refine .inr ⟨by rw [heq]; simp, not_infix_of_cons (hhead _ ?_) hcs⟩
        intro ds' hds'
        exact ⟨ds', hds'⟩

/-- A string that is not closed stays open up to the end of its line. -/
theorem unclosed_of_stringRest (h : (stringRest quote value taken cs).1 = none) :
    ∃ body, (stringRest quote value taken cs).2.1 = taken.reverse ++ body ∧
      Unclosed quote body ∧ EndsLine (stringRest quote value taken cs).2.2 := by
  fun_induction stringRest quote value taken cs with
  | case1 => exact ⟨[], by simp, .nil, by simp [EndsLine]⟩
  | case2 value taken cs => exact ⟨[], by simp, .nil, by rintro _ ⟨⟩; rfl⟩
  | case3 => cases h
  | case4 value taken => exact ⟨['\\'], by simp, .backslash, by simp [EndsLine]⟩
  | case5 value taken hline hquote cs => exact ⟨['\\'], by simp, .backslash, by rintro _ ⟨⟩; rfl⟩
  | case6 value taken e cs hline hstart hquote ih =>
      obtain ⟨body, htext, hbody, hrest⟩ := ih h
      exact ⟨'\\' :: e :: body, by simp [htext], .escape hline hbody, hrest⟩
  | case7 value taken c cs hline hquote hbackslash ih =>
      obtain ⟨body, htext, hbody, hrest⟩ := ih h
      exact ⟨c :: body, by simp [htext], .plain hline hquote hbackslash hbody, hrest⟩

/-- A string that is closed does not depend on what comes behind. -/
theorem stringRest_alone {v : List Char} (h : (stringRest quote value taken cs).1 = some v) :
    ∃ body, (stringRest quote value taken cs).2.1 = taken.reverse ++ body ∧
      stringRest quote value taken body = (some v, taken.reverse ++ body, []) := by
  fun_induction stringRest quote value taken cs with
  | case1 => cases h
  | case2 => cases h
  | case3 value taken cs hline =>
      obtain rfl : value.reverse = v := by simpa using h
      exact ⟨[quote], by simp, by simp [stringRest.eq_def, hline]⟩
  | case4 => cases h
  | case5 => cases h
  | case6 value taken e cs hline hstart hquote ih =>
      obtain ⟨body, htext, halone⟩ := ih h
      refine ⟨'\\' :: e :: body, by simp [htext], ?_⟩
      rw [stringRest.eq_def]
      simp [*]
  | case7 value taken c cs hline hquote hbackslash ih =>
      obtain ⟨body, htext, halone⟩ := ih h
      refine ⟨c :: body, by simp [htext], ?_⟩
      rw [stringRest.eq_def]
      simp [*]

/-- The piece that a filler is. -/
def Filler.piece (f : Filler) : Piece :=
  ⟨match f.fault? with
    | none => .gap
    | some fault => .fault fault, f.text⟩

/-- What is not a token fills a gap. -/
theorem Piece.First.filler {p : Piece} (h : Piece.First c cs p rest)
    (hkind : ∀ t, p.kind ≠ .token t) : ∃ f : Filler, p = f.piece ∧ f.Stands rest := by
  cases h with
  | blank hblank => exact ⟨.blank c, rfl, .blank hblank⟩
  | @lineComment cs =>
      refine ⟨.lineComment (cs.takeWhile (· ≠ '\n')), rfl, .lineComment ?_ (endsLine_dropWhile cs)⟩
      intro hmem
      simpa using List.mem_takeWhile_imp hmem
  | @blockComment cs text rest hbody =>
      rcases blockComment_cases ['*', '/'] cs with ⟨body, rest', heq, hend⟩ | ⟨heq, -⟩
      · cases heq.symm.trans hbody
        exact ⟨.blockComment body, rfl, .blockComment hend⟩
      · cases heq.symm.trans hbody
  | @openComment cs text rest hbody =>
      rcases blockComment_cases ['*', '/'] cs with ⟨body, rest', heq, -⟩ | ⟨heq, hend⟩
      · cases heq.symm.trans hbody
      · cases heq.symm.trans hbody
        exact ⟨.openComment cs, rfl, .openComment hend⟩
  | openString hquote hbody =>
      obtain ⟨body, htext, hopen, hrest⟩ := unclosed_of_stringRest (congrArg Prod.fst hbody)
      rw [hbody] at htext hrest
      subst htext
      exact ⟨.openString c body, rfl, .openString hquote hopen hrest⟩
  | invalid hstarts => exact ⟨.invalid c, rfl, .invalid hstarts⟩
  | string | number | word | assign | operator | mark => exact absurd rfl (hkind _)

theorem toList_text_of_operator? {op : BinaryOp} (h : operator? c = some op) :
    op.text.toList = [c] := by
  have htext := List.find?_some h
  rw [beq_iff_eq] at htext
  rw [htext, String.toList_singleton]

/-- A token is read from its own characters alone. -/
theorem Piece.First.alone {t : Token} {text : List Char}
    (h : Piece.First c cs ⟨.token t, text⟩ rest) : pieces text = [⟨.token t, text⟩] := by
  cases h with
  | string hblank hquote hbody =>
      obtain ⟨body, htext, halone⟩ := stringRest_alone (congrArg Prod.fst hbody)
      rw [hbody] at htext
      subst htext
      have hslash : c ≠ '/' := by
        rintro rfl
        simp at hquote
      rw [List.reverse_singleton, List.singleton_append, pieces_cons]
      unfold Piece.first
      simp [hblank, hslash, hquote, halone]
  | number hblank hdigit =>
      have hnil : ∀ d ∈ ([] : List Char).head?, d.isDigit = false ∧ d ≠ '.' := by simp
      simpa using pieces_number (isNumeral_numberRest hblank hdigit) hnil
  | word hblank hdigit hstarts =>
      have hword : IsWord (c :: cs.takeWhile continuesWord) :=
        .intro hblank hdigit hstarts fun d hd ↦ List.mem_takeWhile_imp hd
      have hnil : ∀ d ∈ ([] : List Char).head?, continuesWord d = false := by simp
      simpa using pieces_word hword hnil
  | @assign c cs op hop =>
      have hassign := pieces_assign (.compound op) []
      rw [AssignOp.text, String.toList_append, toList_text_of_operator? hop] at hassign
      simpa using hassign
  | @operator c cs op hop =>
      have hnil : ∀ d ∈ ([] : List Char).head?, d ∉ ['=', '/', '*'] := by simp
      have hsingle : pieces (op.text.toList ++ []) = _ := pieces_operator hnil
      rw [toList_text_of_operator? hop] at hsingle
      simpa using hsingle
  | mark hmark =>
      have hall : ∀ m ∈ marks, Piece.first m.1 [] = (⟨.token m.2, [m.1]⟩, []) := by decide +kernel
      rw [pieces_cons, hall _ hmark, pieces_nil]

end First

/-! ## Partitions of texts that can be read -/

/-- The pieces that a token and the gap before it are. -/
def Cell.pieces (c : Cell) : List Piece :=
  c.gap.map Filler.piece ++ [⟨.token c.token, c.text⟩]

/-- The pieces that tokens with gaps before them and a last gap are. -/
def partitionPieces (cells : List Cell) (last : List Filler) : List Piece :=
  cells.flatMap Cell.pieces ++ last.map Filler.piece

section Partitions

variable {cs rest text : List Char} {cells : List Cell} {last : List Filler} {f : Filler}
  {t : Token} {s : Scan}

/-- A token that can be read is all that is read from its own characters. -/
theorem Scan.ofText?_alone (halone : pieces text = [⟨.token t, text⟩])
    (hreadable : (⟨.token t, text⟩ : Piece).isUnreadable = false) :
    Scan.ofText? text = some ⟨[⟨t, 0, false⟩], [], byteLength text, false⟩ := by
  refine Scan.ofText?_eq_some_iff.mpr ⟨?_, ?_⟩
  · rw [halone]
    simpa using hreadable
  · rw [halone]
    simp [Scan.ofPieces, Scan.add, Scan.empty]

theorem Partition.token
    (halone : Scan.ofText? text = some ⟨[⟨t, 0, false⟩], [], byteLength text, false⟩)
    (hrest : Partition rest cells last) : Partition (text ++ rest) (⟨[], t, text⟩ :: cells) last :=
  .cell (c := ⟨[], t, text⟩) .nil halone hrest

/-- What stands before a partitioned text belongs to its first gap. -/
theorem Partition.filler (hf : f.Stands rest) (hrest : Partition rest cells last) :
    ∃ cells' last', Partition (f.text ++ rest) cells' last' ∧
      partitionPieces cells' last' = f.piece :: partitionPieces cells last := by
  cases hrest with
  | last hgap =>
      refine ⟨[], f :: last, .last (.cons ?_ hgap), rfl⟩
      rwa [List.append_nil]
  | @cell c rest cells last hgap halone hrest =>
      refine ⟨⟨f :: c.gap, c.token, c.text⟩ :: cells, last, ?_, rfl⟩
      have hcell := Partition.cell (c := ⟨f :: c.gap, c.token, c.text⟩) (.cons ?_ hgap) halone
        hrest
      · simpa [Cell.chars, gapText] using hcell
      · simpa [Cell.chars] using hf

/-- A text whose words can be read has a partition. -/
theorem exists_partition (cs : List Char) (h : ∀ p ∈ pieces cs, p.isUnreadable = false) :
    ∃ cells last, Partition cs cells last ∧ pieces cs = partitionPieces cells last := by
  generalize hn : cs.length = n
  induction n using Nat.strongRecOn generalizing cs with
  | ind n ih =>
      cases cs with
      | nil => exact ⟨[], [], .last .nil, pieces_nil⟩
      | cons c cs =>
          have hlt := Piece.first_length c cs
          rw [List.length_cons] at hn
          rw [pieces_cons, List.forall_mem_cons] at h
          obtain ⟨hreadable, hreadables⟩ := h
          rw [pieces_cons, ← Piece.first_append c cs]
          have hfirst := Piece.first_spec c cs
          generalize (Piece.first c cs).2 = rest at hlt hreadables hfirst ⊢
          generalize (Piece.first c cs).1 = p at hreadable hfirst ⊢
          obtain ⟨kind, text⟩ := p
          obtain ⟨cells, last, hrest, hpieces⟩ := ih _ (by omega) rest hreadables rfl
          rw [hpieces]
          by_cases htoken : ∃ t, kind = .token t
          · obtain ⟨t, rfl⟩ := htoken
            have halone := Scan.ofText?_alone hfirst.alone hreadable
            exact ⟨_, last, .token halone hrest, rfl⟩
          · obtain ⟨f, hf, hstands⟩ := hfirst.filler fun t ht ↦ htoken ⟨t, ht⟩
            obtain ⟨cells', last', hcells', hpieces'⟩ := Partition.filler hstands hrest
            rw [hf]
            exact ⟨cells', last', hcells', hpieces'.symm⟩

/-! ### What is reported for them -/

theorem Scan.add_filler (s : Scan) (f : Filler) :
    s.add f.piece =
      ⟨s.lexemes, (gapErrors s.size [f]).reverse ++ s.errors, s.size + byteLength f.text,
        s.newlineAtEnd || decide ('\n' ∈ f.text)⟩ := by
  cases hfault : f.fault? <;> simp [Scan.add, Filler.piece, gapErrors, hfault]

theorem Scan.foldl_gap (s : Scan) (gap : List Filler) :
    (gap.map Filler.piece).foldl Scan.add s =
      ⟨s.lexemes, (gapErrors s.size gap).reverse ++ s.errors, s.size + byteLength (gapText gap),
        s.newlineAtEnd || decide ('\n' ∈ gapText gap)⟩ := by
  induction gap generalizing s with
  | nil => simp [gapErrors, gapText, byteLength]
  | cons f gap ih =>
      rw [List.map_cons, List.foldl_cons, ih, Scan.add_filler]
      simp [gapErrors, gapText, Nat.add_assoc, Bool.or_assoc]

theorem Scan.foldl_cell (s : Scan) (c : Cell) :
    c.pieces.foldl Scan.add s =
      ⟨⟨c.token, s.size + byteLength (gapText c.gap),
          s.newlineAtEnd || decide ('\n' ∈ gapText c.gap)⟩ :: s.lexemes,
        (gapErrors s.size c.gap).reverse ++ s.errors, s.size + byteLength c.chars, false⟩ := by
  rw [Cell.pieces, List.foldl_append, Scan.foldl_gap, List.foldl_cons, List.foldl_nil]
  simp [Scan.add, Cell.chars, Nat.add_assoc]

theorem partitionPieces_cons (c : Cell) (cells : List Cell) (last : List Filler) :
    partitionPieces (c :: cells) last = c.pieces ++ partitionPieces cells last := by
  rw [partitionPieces, List.flatMap_cons, List.append_assoc, partitionPieces]

/-- Going through the pieces of a partition adds its lexemes and errors. -/
theorem Scan.foldl_partitionPieces (hs : s.newlineAtEnd = false) (h : Partition cs cells last) :
    (partitionPieces cells last).foldl Scan.add s =
      ⟨(cellLexemes s.size cells).reverse ++ s.lexemes,
        (cellErrors last s.size cells).reverse ++ s.errors, s.size + byteLength cs,
        decide ('\n' ∈ gapText last)⟩ := by
  induction h generalizing s with
  | last hgap => simp [partitionPieces, Scan.foldl_gap, cellLexemes, cellErrors, hs]
  | cell hgap halone hrest ih =>
      rw [partitionPieces_cons, List.foldl_append, Scan.foldl_cell, ih rfl]
      simp [cellLexemes, cellErrors, hs, Nat.add_assoc]

theorem text_ne_nil_of_alone {size : Nat}
    (h : Scan.ofText? text = some ⟨[⟨t, 0, false⟩], [], size, false⟩) : text ≠ [] := by
  rintro rfl
  rw [Scan.ofText?, pieces_nil] at h
  cases h

/-- The lexemes of a partition stand on boundaries, one behind the other. -/
theorem Partition.offsets (h : Partition cs cells last) (before : List Char) :
    ((cellLexemes (byteLength before) cells).map Lexeme.offset ++
        [byteLength (before ++ cs)]).Pairwise (· < ·) ∧
      ∀ l ∈ cellLexemes (byteLength before) cells,
        byteLength before ≤ l.offset ∧ IsBoundary (before ++ cs) l.offset := by
  induction h generalizing before with
  | last hgap => simp [cellLexemes]
  | @cell c rest cells last hgap halone hrest ih =>
      obtain ⟨horder, hbounds⟩ := ih (before ++ c.chars)
      have htext := byteLength_pos (text_ne_nil_of_alone halone)
      have hchars : byteLength c.chars = byteLength (gapText c.gap) + byteLength c.text :=
        byteLength_append _ _
      rw [byteLength_append, List.append_assoc] at horder hbounds
      rw [cellLexemes, List.map_cons, List.cons_append, List.pairwise_cons, List.forall_mem_cons]
      refine ⟨⟨?_, horder⟩, ⟨Nat.le_add_right _ _, ?_⟩, ?_⟩
      · rw [List.forall_mem_append, List.forall_mem_map, List.forall_mem_singleton]
        refine ⟨fun l hl ↦ ?_, ?_⟩
        · have hlow := (hbounds l hl).1
          dsimp only
          omega
        · rw [byteLength_append, byteLength_append]
          dsimp only
          omega
      · refine ⟨before ++ gapText c.gap, c.text ++ rest, ?_, byteLength_append _ _⟩
        simp [Cell.chars]
      · intro l hl
        obtain ⟨hlow, hboundary⟩ := hbounds l hl
        exact ⟨by omega, hboundary⟩

/-- A text that can be read is reported as the tokens and gaps that it falls into. -/
theorem Scan.exists_partition_of_ofText? {scan : Scan} (h : Scan.ofText? cs = some scan) :
    ∃ cells last, Partition cs cells last ∧
      scan = ⟨cellLexemes 0 cells, cellErrors last 0 cells, byteLength cs,
        decide ('\n' ∈ gapText last)⟩ := by
  obtain ⟨hreadable, rfl⟩ := Scan.ofText?_eq_some_iff.mp h
  obtain ⟨cells, last, hpartition, hpieces⟩ := exists_partition cs hreadable
  refine ⟨cells, last, hpartition, ?_⟩
  rw [hpieces, Scan.ofPieces, Scan.foldl_partitionPieces (s := Scan.empty) rfl hpartition]
  simp [Scan.empty]

end Partitions

/-- A text that can be read falls into tokens and gaps, and is reported as that: every token where
it starts and behind a line break if there is one in the gap before it, and what is wrong in the
gaps.  The tokens and the end of the text follow one another on boundaries between characters. -/
theorem Scan.partition_of_ofText? {cs : List Char} {scan : Scan} (h : Scan.ofText? cs = some scan) :
    ∃ cells last, Partition cs cells last ∧
      scan = ⟨cellLexemes 0 cells, cellErrors last 0 cells, byteLength cs,
        decide ('\n' ∈ gapText last)⟩ ∧
      (scan.lexemes.map Lexeme.offset ++ [scan.size]).Pairwise (· < ·) ∧
      ∀ l ∈ scan.lexemes, IsBoundary cs l.offset := by
  obtain ⟨cells, last, hpartition, rfl⟩ := Scan.exists_partition_of_ofText? h
  obtain ⟨horder, hboundary⟩ := hpartition.offsets []
  exact ⟨cells, last, hpartition, rfl, horder, fun l hl ↦ (hboundary l hl).2⟩

/-- A text with every fault that there is. -/
def faulty : List Char :=
  "x # /*\n*/ y \"z\n/*".toList

/-- How the faulty text is read. -/
def faultyScan : Scan :=
  ⟨[⟨.ident "x", 0, false⟩, ⟨.ident "y", 10, true⟩],
    [⟨2, .invalidCharacter⟩, ⟨12, .unterminatedString⟩, ⟨15, .unterminatedComment⟩], 17, true⟩

theorem faulty_partition :
    Scan.ofText? faulty = some faultyScan ∧
      ∃ cells last, Partition faulty cells last ∧
        faultyScan = ⟨cellLexemes 0 cells, cellErrors last 0 cells, byteLength faulty,
          decide ('\n' ∈ gapText last)⟩ ∧
        (faultyScan.lexemes.map Lexeme.offset ++ [faultyScan.size]).Pairwise (· < ·) ∧
        ∀ l ∈ faultyScan.lexemes, IsBoundary faulty l.offset := by
  have hscan : Scan.ofText? faulty = some faultyScan := by decide +kernel
  exact ⟨hscan, Scan.partition_of_ofText? hscan⟩

end PipedCompiler.Language
