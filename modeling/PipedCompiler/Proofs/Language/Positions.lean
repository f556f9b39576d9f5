import Mathlib.Data.List.Sort
import PipedCompiler.Proofs.Language.Moving
import PipedCompiler.Proofs.Language.NamePlaces
import PipedCompiler.Proofs.Text.Position

/-!
# Positions in source files

Everything that a scan or a module places in a text is placed on a boundary: tokens and lexical
faults stand where a piece of the text starts, and a parser knows of no places but those of lexemes
and of the end.  So the positions that are shown for them count lines and characters, and are in the
order of the places.
-/

namespace PipedCompiler.Language

open PipedCompiler.Text PipedCompiler.Compile

/-! ## Lexical errors -/

/-- A lexical error is where a piece starts. -/
theorem isBoundary_of_mem_errorsFrom (before : List Char) {ps : List Piece} {e : LexicalError}
    (h : e ∈ errorsFrom (byteLength before) ps) :
    IsBoundary (before ++ ps.flatMap Piece.text) e.offset := by
  induction ps generalizing before with
  | nil => cases h
  | cons p ps ih =>
      have hlater (he : e ∈ errorsFrom (byteLength before + byteLength p.text) ps) :
          IsBoundary (before ++ (p :: ps).flatMap Piece.text) e.offset := by
        rw [← byteLength_append] at he
        rw [List.flatMap_cons, ← List.append_assoc]
        exact ih (before ++ p.text) he
      rw [errorsFrom] at h
      split at h
      · rcases List.mem_cons.mp h with rfl | h
        · exact isBoundary_byteLength before _
        · exact hlater h
      · exact hlater h

theorem Scan.isBoundary_of_mem_errors {cs : List Char} {e : LexicalError}
    (h : e ∈ (Scan.ofPieces (pieces cs)).errors) : IsBoundary cs e.offset := by
  rw [Scan.ofPieces_errors] at h
  have hboundary := isBoundary_of_mem_errorsFrom [] h
  rwa [List.nil_append, flatMap_text_pieces] at hboundary

/-! ## Places of a module -/

/-- Moves everything that is not at one of the places. -/
def aside (places : List Nat) (offset : Nat) : Nat :=
  if offset ∈ places then offset else offset + 1

theorem aside_of_mem {places : List Nat} {offset : Nat} (h : offset ∈ places) :
    aside places offset = offset :=
  if_pos h

theorem mem_of_aside_eq {places : List Nat} {offset : Nat} (h : aside places offset = offset) :
    offset ∈ places := by
  by_contra hmem
  rw [aside, if_neg hmem] at h
  exact Nat.succ_ne_self _ h

namespace SyntaxTree

section Places

variable {size : Nat} {ls : List Lexeme}

/-- Where lexemes stay where they are, and the end does, all that is read from them stays. -/
theorem move_ofLexemes {g : Nat → Nat} (hsize : g size = size)
    (hls : ∀ l ∈ ls, g l.offset = l.offset) : (ofLexemes size ls).move g = ofLexemes size ls := by
  have hmap : ls.map (Lexeme.move g) = ls.map id := by
    refine List.map_congr_left fun l hl ↦ ?_
    rw [Lexeme.move, hls l hl]
    rfl
  rw [← ofLexemes_move hsize, hmap, List.map_id]

/-- What is read stands where lexemes stand, or at the end: so it stays when all else is moved. -/
theorem move_aside (size : Nat) (ls : List Lexeme) :
    (ofLexemes size ls).move (aside (size :: ls.map Lexeme.offset)) = ofLexemes size ls :=
  move_ofLexemes (aside_of_mem List.mem_cons_self) fun _ hl ↦
    aside_of_mem (List.mem_cons_of_mem _ (List.mem_map_of_mem hl))

theorem offset_mem_of_mem_errors {e : SyntaxError} (h : e ∈ (ofLexemes size ls).errors) :
    e.offset ∈ size :: ls.map Lexeme.offset := by
  have herrors := (congrArg errors (move_aside size ls)).trans (List.map_id _).symm
  exact mem_of_aside_eq (congrArg SyntaxError.offset (List.map_inj_left.mp herrors e h))

theorem offset_mem_of_mem_imports {i : Import} (h : i ∈ (ofLexemes size ls).imports) :
    i.offset ∈ size :: ls.map Lexeme.offset := by
  have himports := (congrArg imports (move_aside size ls)).trans (List.map_id _).symm
  rw [imports_move] at himports
  exact mem_of_aside_eq (congrArg Import.offset (List.map_inj_left.mp himports i h))

end Places

/-- Errors are sorted by their places. -/
theorem pairwise_errors (s : Scan) :
    (ofScan s).errors.Pairwise fun e e' ↦ e.offset ≤ e'.offset := by
  refine (List.pairwise_mergeSort ?_ ?_ _).imp of_decide_eq_true
  · intro a b c hab hbc
    exact decide_eq_true ((of_decide_eq_true hab).trans (of_decide_eq_true hbc))
  · intro a b
    rw [Bool.or_eq_true, decide_eq_true_iff, decide_eq_true_iff]
    exact Nat.le_total _ _

end SyntaxTree

/-- The places of tokens, of the end, of lexical and of syntax errors, of names and of imports. -/
def Scan.places (scan : Scan) : List Nat :=
  let tree := SyntaxTree.ofScan scan
  scan.lexemes.map Lexeme.offset ++ scan.size :: scan.errors.map LexicalError.offset ++
    tree.errors.map SyntaxError.offset ++ (tree.statements.flatMap Stmt.names).map Name.offset ++
    tree.imports.map Import.offset

section Boundaries

variable {cs : List Char} {scan : Scan}

theorem Scan.isBoundary_of_mem_offsets (h : Scan.ofText? cs = some scan) {offset : Nat}
    (hoffset : offset ∈ scan.size :: scan.lexemes.map Lexeme.offset) : IsBoundary cs offset := by
  obtain ⟨-, -, -, -, -, hlexemes⟩ := Scan.partition_of_ofText? h
  rcases List.mem_cons.mp hoffset with rfl | hoffset
  · obtain ⟨-, rfl⟩ := Scan.ofText?_eq_some_iff.mp h
    rw [Scan.ofPieces_size]
    exact ⟨cs, [], (List.append_nil cs).symm, rfl⟩
  · obtain ⟨l, hl, rfl⟩ := List.mem_map.mp hoffset
    exact hlexemes l hl

/-- Whatever a scan or a module places in a text is between characters. -/
theorem Scan.isBoundary_of_mem_places (h : Scan.ofText? cs = some scan) {offset : Nat}
    (hoffset : offset ∈ scan.places) : IsBoundary cs offset := by
  have htree : SyntaxTree.ofText? cs = some (.ofScan scan) := by
    rw [SyntaxTree.ofText?, h]
    rfl
  have hlexical {e : LexicalError} (he : e ∈ scan.errors) : IsBoundary cs e.offset := by
    obtain ⟨-, rfl⟩ := Scan.ofText?_eq_some_iff.mp h
    exact Scan.isBoundary_of_mem_errors he
  rw [Scan.places] at hoffset
  simp only [List.mem_append, List.mem_cons, List.mem_map] at hoffset
  rcases hoffset with (((⟨l, hl, rfl⟩ | rfl | ⟨e, he, rfl⟩) | ⟨e, he, rfl⟩) | ⟨n, hn, rfl⟩) |
    ⟨i, hi, rfl⟩
  · exact isBoundary_of_mem_offsets h (List.mem_cons_of_mem _ (List.mem_map_of_mem hl))
  · exact isBoundary_of_mem_offsets h List.mem_cons_self
  · exact hlexical he
  · rcases List.mem_append.mp (List.mem_mergeSort.mp he) with he | he
    · obtain ⟨fault, hfault, rfl⟩ := List.mem_map.mp he
      exact hlexical hfault
    · exact isBoundary_of_mem_offsets h (SyntaxTree.offset_mem_of_mem_errors he)
  · obtain ⟨before, after, hcs, hoffset, -⟩ := SyntaxTree.wordAt_of_mem_names htree hn
    exact ⟨before, after, hcs, hoffset⟩
  · exact isBoundary_of_mem_offsets h (SyntaxTree.offset_mem_of_mem_imports hi)

theorem SyntaxTree.isBoundary_of_mem_errors (h : Scan.ofText? cs = some scan) {e : SyntaxError}
    (he : e ∈ (ofScan scan).errors) : IsBoundary cs e.offset := by
  refine Scan.isBoundary_of_mem_places h ?_
  simp only [Scan.places, List.mem_append, List.mem_map]
  exact .inl (.inl (.inr ⟨e, he, rfl⟩))

/-- The positions of the errors are in order, unless there are more bytes than 32 bits can count. -/
theorem SyntaxTree.pairwise_positions (h : Scan.ofText? cs = some scan)
    (hsize : byteLength cs + 1 < UInt32.size) :
    ((ofScan scan).errors.map fun e ↦ (position cs e.offset).key).Pairwise (· ≤ ·) := by
  rw [List.pairwise_map]
  refine (pairwise_errors scan).imp_of_mem fun he he' hle ↦ ?_
  have hboundary := isBoundary_of_mem_errors h he'
  have hend := hboundary.le
  exact key_position_le (isBoundary_of_mem_errors h he) hboundary (by omega) hle

end Boundaries

end PipedCompiler.Language

namespace PipedCompiler

open PipedCompiler.Text PipedCompiler.Language PipedCompiler.Compile

/-- Positions are exact, as far as 32 bits go.  On a boundary the line and the column count the line
feeds before it and the characters since the last of them, up to multiples of the numbers that
32 bits can tell, and just so where there are fewer bytes before it; everything past the end is at
the end.  Where boundaries with fewer bytes before them differ, so do their positions, in the same
order.  All that is placed in a text that can be read is placed on boundaries, and its diagnostics
show the positions of its errors, which are in order if the text is not too long. -/
theorem SourceFile.positions_exact (f : SourceFile) :
    (∀ before after, f.chars = before ++ after →
      let p := position f.chars (byteLength before)
      let line := 1 + before.count '\n'
      let column := 1 + (before.rtakeWhile (· ≠ '\n')).length
      (p.line.toNat = line % UInt32.size ∧ p.column.toNat = column % UInt32.size) ∧
        (byteLength before + 1 < UInt32.size → p.line.toNat = line ∧ p.column.toNat = column)) ∧
      (∀ offset, byteLength f.chars ≤ offset →
        position f.chars offset = position f.chars (byteLength f.chars)) ∧
      (∀ a b, IsBoundary f.chars a → IsBoundary f.chars b →
        a + 1 < UInt32.size → b + 1 < UInt32.size →
          (a ≠ b → position f.chars a ≠ position f.chars b) ∧
            (a < b → (position f.chars a).key < (position f.chars b).key)) ∧
      ∀ scan, Scan.ofText? f.chars = some scan →
        (∀ offset ∈ scan.places, IsBoundary f.chars offset) ∧
          (∀ unresolved,
            (LoadedFile.syntaxDiagnostics ⟨f, .ofScan scan, unresolved⟩).map
                Diagnostic.position? =
              (SyntaxTree.ofScan scan).errors.map fun e ↦ some (position f.chars e.offset)) ∧
          (byteLength f.chars + 1 < UInt32.size →
            ((SyntaxTree.ofScan scan).errors.map fun e ↦
              (position f.chars e.offset).key).Pairwise (· ≤ ·)) := by
  refine ⟨fun before after happend ↦ ?_, fun _ ↦ position_of_le,
    fun a b ha hb hasize hbsize ↦
      ⟨position_ne ha hb hasize hbsize, key_position_lt ha hb hbsize⟩, fun scan hscan ↦
      ⟨fun _ ↦ scan.isBoundary_of_mem_places hscan, fun unresolved ↦ ?_,
        SyntaxTree.pairwise_positions hscan⟩⟩
  · rw [happend]
    refine ⟨position_boundary before after, fun hsize ↦ ?_⟩
    have hcounts := toNat_position (isBoundary_byteLength before after) hsize
    rwa [counts_boundary] at hcounts
  · rw [LoadedFile.syntaxDiagnostics, List.map_map]
    exact List.map_congr_left fun e _ ↦ Diagnostic.position?_place _ f e.offset

/-- A file of two lines.  The second one has a character of two bytes before its two faults. -/
def twoFaults : SourceFile :=
  ⟨"a.ts", "x\nwé # 'a".toList, .es5⟩

theorem SourceFile.positions_exact_twoFaults :
    ∃ scan, Scan.ofText? twoFaults.chars = some scan ∧
      scan.errors.map LexicalError.offset = [6, 8] ∧
      (position twoFaults.chars 6).line.toNat = 2 ∧
      (position twoFaults.chars 6).column.toNat = 4 ∧
      position twoFaults.chars 8 ≠ position twoFaults.chars 6 ∧
      (position twoFaults.chars 6).key < (position twoFaults.chars 8).key ∧
      position twoFaults.chars 100 = position twoFaults.chars 10 ∧
      (∀ offset ∈ scan.places, IsBoundary twoFaults.chars offset) ∧
      (LoadedFile.syntaxDiagnostics ⟨twoFaults, .ofScan scan, []⟩).map Diagnostic.position? =
        (SyntaxTree.ofScan scan).errors.map (fun e ↦ some (position twoFaults.chars e.offset)) ∧
      ((SyntaxTree.ofScan scan).errors.map fun e ↦
        (position twoFaults.chars e.offset).key).Pairwise (· ≤ ·) := by
  obtain ⟨hexact, hend, horder, hscans⟩ := SourceFile.positions_exact twoFaults
  have hread : (Scan.ofText? twoFaults.chars).map (·.errors.map LexicalError.offset) =
      some [6, 8] := by decide +kernel
  obtain ⟨scan, hscan, herrors⟩ := Option.map_eq_some_iff.mp hread
  obtain ⟨hplaces, hshown, hsorted⟩ := hscans scan hscan
  have hfirst : twoFaults.chars = "x\nwé ".toList ++ "# 'a".toList := by decide +kernel
  have hsecond : twoFaults.chars = "x\nwé # ".toList ++ "'a".toList := by decide +kernel
  have hfirstFault : IsBoundary twoFaults.chars 6 := ⟨_, _, hfirst, by decide +kernel⟩
  have hsecondFault : IsBoundary twoFaults.chars 8 := ⟨_, _, hsecond, by decide +kernel⟩
  obtain ⟨hline, hcolumn⟩ := (hexact _ _ hfirst).2 (by decide +kernel)
  exact ⟨scan, hscan, herrors, hline, hcolumn,
    (horder 8 6 hsecondFault hfirstFault (by decide) (by decide)).1 (by decide),
    (horder 6 8 hfirstFault hsecondFault (by decide) (by decide)).2 (by decide),
    hend 100 (by decide +kernel), hplaces, hshown [], hsorted (by decide +kernel)⟩

/-- A file that has nothing but line feeds. -/
def emptyLines (n : Nat) : SourceFile :=
  ⟨"a.ts", List.replicate n '\n', .es5⟩

theorem byteLength_emptyLines (n : Nat) : byteLength (emptyLines n).chars = n := by
  induction n with
  | zero => rfl
  | succ n ih =>
      have hsize : Char.utf8Size '\n' = 1 := by decide
      show byteLength ('\n' :: (emptyLines n).chars) = n + 1
      rw [byteLength_cons, ih, hsize, Nat.add_comm]

theorem line_emptyLines (n : Nat) :
    (position (emptyLines n).chars n).line.toNat = (1 + n) % UInt32.size := by
  have h := (position_boundary (emptyLines n).chars []).1
  rw [List.append_nil, byteLength_emptyLines] at h
  rw [h, emptyLines, List.count_replicate_self]

theorem isBoundary_emptyLines (n : Nat) : IsBoundary (emptyLines n).chars n :=
  ⟨_, [], (List.append_nil _).symm, byteLength_emptyLines n⟩

/-- A text can have no more bytes than 32 bits can count, and more lines.  Its end is then on the
line zero, in front of its start. -/
theorem SourceFile.positions_start_again :
    let f := emptyLines (UInt32.size - 1)
    let size := byteLength f.chars
    (size < UInt32.size ∧ IsBoundary f.chars 0 ∧ IsBoundary f.chars size ∧ 0 < size) ∧
      (position f.chars size).line.toNat ≠ 1 + f.chars.count '\n' ∧
      ¬ (position f.chars 0).key < (position f.chars size).key := by
  have hn : UInt32.size - 1 + 1 = UInt32.size := by decide
  have hpos : 0 < UInt32.size - 1 := by decide
  generalize UInt32.size - 1 = n at *
  intro f size
  have hsize : size = n := byteLength_emptyLines n
  have hend : (position f.chars n).line.toNat = 0 := by
    rw [line_emptyLines, Nat.add_comm, hn, Nat.mod_self]
  have hstart : (position f.chars 0).line.toNat = 1 := (position_boundary [] f.chars).1
  rw [hsize]
  refine ⟨⟨hn ▸ Nat.lt_succ_self n, ⟨[], _, rfl, rfl⟩, isBoundary_emptyLines n, hpos⟩, ?_, ?_⟩
  · rw [hend]
    omega
  · rw [Position.key, Position.key, Prod.Lex.toLex_lt_toLex, hstart, hend]
    simp

end PipedCompiler
