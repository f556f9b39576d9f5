import PipedCompiler.Proofs.Language.LineBreaks

/-!
# Faults stay where they are

After a fault, reading goes on at the next place where a statement may start.  So where two texts
stand on both sides of a semicolon on a line of its own, each is read as if it stood alone, however
many faults the other one has.
-/

namespace PipedCompiler.Language

open PipedCompiler.Text

section Moved

variable {g : Nat → Nat} {behind : List Lexeme}

/-! ## Going on after a fault -/

theorem skipStatement_moved (hbehind : Shuts behind) (ls : List Lexeme) :
    skipStatement (moved g behind ls) = moved g behind (skipStatement ls) := by
  induction ls with
  | nil => cases hbehind <;> rfl
  | cons l ls ih =>
      obtain ⟨t, offset, newline⟩ := l
      rw [moved_cons, skipStatement, skipStatement]
      cases newline with
      | true => rfl
      | false =>
          by_cases ht : t = .semicolon
          · simp [ht]
          · simpa [ht] using ih

theorem recover_moved (hbehind : Shuts behind) {start rest : List Lexeme} (hstart : start ≠ []) :
    recover (moved g behind start) (moved g behind rest) = moved g behind (recover start rest) := by
  rw [recover, recover, ← skipStatement_moved hbehind, length_moved, length_moved]
  by_cases hlength : rest.length = start.length
  · obtain ⟨l, rest, rfl⟩ : ∃ l ls, rest = l :: ls :=
      List.exists_cons_of_length_pos (hlength ▸ List.length_pos_iff.mpr hstart)
    rw [if_pos hlength, if_pos (by rw [hlength])]
    rfl
  · rw [if_neg hlength, if_neg (by omega)]

theorem recover_self (l : Lexeme) (ls : List Lexeme) :
    recover (l :: ls) (l :: ls) = skipStatement ls := by
  rw [recover, if_pos rfl, List.tail_cons]

/-- Every fault costs at least one lexeme. -/
theorem length_recover_lt {start rest : List Lexeme} (hstart : start ≠ []) (h : rest <:+ start) :
    (recover start rest).length < start.length := by
  refine Nat.lt_of_le_of_lt (skipStatement_suffix _).length_le ?_
  have hle := h.length_le
  have hpos := List.length_pos_iff.mpr hstart
  split
  · rw [List.length_tail]
    omega
  · omega

/-- A statement takes at least one lexeme. -/
theorem Parser.length_lt_of_statement {n : Nat} {ls rest : List Lexeme} {s : Stmt}
    (h : Parser.statement n ls = .parsed s rest) : rest.length < ls.length := by
  obtain ⟨taken, ending, rfl, hspells, -⟩ := Parser.reads_statement h
  obtain ⟨t, ms, hmarks, -⟩ := s.marks_eq_cons
  have hlength := hspells.length_eq
  rw [hmarks, List.length_cons] at hlength
  rw [List.length_append, List.length_append]
  omega

/-- A fault that is found where the lexemes end is found at what stands behind them. -/
theorem ParseFault.offset_move {size size' : Nat} (hend : g size = nextOffset size' behind)
    (fault : ParseFault) (rest : List Lexeme) :
    (fault.move g).offset size' (moved g behind rest) = g (fault.offset size rest) := by
  have hnext : nextOffset size' (moved g behind rest) = g (nextOffset size rest) := by
    cases rest with
    | nil => exact hend.symm
    | cons l rest => rfl
  cases fault with
  | uninitialized name => rfl
  | _ => exact hnext

/-! ## Modules -/

namespace SyntaxTree

/-- What has been read so far only gathers. -/
theorem readFrom_eq (size n : Nat) (t : SyntaxTree) (ls : List Lexeme) :
    readFrom size n t ls =
      ⟨(readFrom size n ⟨[], []⟩ ls).statements ++ t.statements,
        (readFrom size n ⟨[], []⟩ ls).errors ++ t.errors⟩ := by
  induction n generalizing t ls with
  | zero => rfl
  | succ n ih =>
      cases ls with
      | nil => rfl
      | cons l ls =>
          rw [readFrom, readFrom]
          split
          · exact ih t ls
          · split
            · next s rest _ =>
              rw [ih, ih ⟨[s], []⟩]
              simp
            · next fault rest _ =>
              rw [ih, ih ⟨[], [_]⟩]
              simp

/-- Statements do not depend on where a text ends. -/
theorem statements_readFrom (size size' n : Nat) {t t' : SyntaxTree}
    (ht : t.statements = t'.statements) (ls : List Lexeme) :
    (readFrom size n t ls).statements = (readFrom size' n t' ls).statements := by
  induction n generalizing t t' ls with
  | zero => exact ht
  | succ n ih =>
      cases ls with
      | nil => exact ht
      | cons l ls =>
          rw [readFrom, readFrom]
          split
          · exact ih ht ls
          · split
            · exact ih (congrArg (List.cons _) ht) _
            · apply ih
              exact ht

/-- A semicolon that is as good as the end is passed over. -/
theorem readFrom_shuts (hbehind : Shuts behind) (size : Nat) {n : Nat} (t : SyntaxTree)
    (hn : behind.length ≤ n) :
    ∃ m, behind.tail.length ≤ m ∧ readFrom size n t behind = readFrom size m t behind.tail := by
  cases hbehind with
  | nil => exact ⟨n, hn, rfl⟩
  | semicolon offset rest =>
      cases n with
      | zero => exact absurd hn (Nat.not_succ_le_zero _)
      | succ n => exact ⟨n, Nat.le_of_succ_le_succ hn, rfl⟩

/-- What is read from moved lexemes is what is read from them as they are, but moved; then reading
goes on behind them, as from the start of a statement. -/
theorem readFrom_moved (hbehind : Shuts behind) {size size' : Nat}
    (hend : g size = nextOffset size' behind) {n n' : Nat} (t : SyntaxTree) {ls : List Lexeme}
    (hn : ls.length ≤ n) (hn' : ls.length + behind.length ≤ n') :
    ∃ m, behind.tail.length ≤ m ∧ readFrom size' n' (t.move g) (moved g behind ls) =
      readFrom size' m ((readFrom size n t ls).move g) behind.tail := by
  induction n generalizing n' t ls with
  | zero =>
      obtain rfl : ls = [] := List.length_eq_zero_iff.mp (Nat.le_zero.mp hn)
      exact readFrom_shuts hbehind size' _ (by simpa using hn')
  | succ n ih =>
      cases ls with
      | nil => exact readFrom_shuts hbehind size' _ (by simpa using hn')
      | cons l ls =>
          rw [List.length_cons] at hn hn'
          obtain ⟨n', rfl⟩ : ∃ m, n' = m + 1 := ⟨n' - 1, by omega⟩
          have hle : ls.length + 1 + behind.length ≤ n' + 1 := by omega
          have hstatement :=
            Parser.statement_moved (g := g) hbehind hn hle (l :: ls) (Nat.le_refl _)
          obtain ⟨token, offset, newline⟩ := l
          rw [moved_cons] at hstatement ⊢
          rw [readFrom, readFrom]
          by_cases htoken : token = .semicolon
          · rw [if_pos htoken, if_pos htoken]
            exact ih t (by omega) (by omega)
          rw [if_neg htoken, if_neg htoken]
          have hleaves := Parser.leaves_statement (n + 1) (⟨token, offset, newline⟩ :: ls)
          cases hread : Parser.statement (n + 1) (⟨token, offset, newline⟩ :: ls) with
          | parsed s rest =>
              have hlt := Parser.length_lt_of_statement hread
              rw [List.length_cons] at hlt
              rw [hread] at hstatement
              rcases hstatement with hmoved | ⟨s', heq, hmoved⟩
              · rw [hmoved]
                exact ih { t with statements := s :: t.statements } (by omega) (by omega)
              · obtain ⟨rfl, rfl⟩ := Outcome.parsed.inj heq
                rw [hmoved]
                refine ⟨n', by rw [List.length_tail]; omega, ?_⟩
                cases n <;> rfl
          | failed fault rest =>
              rw [hread] at hstatement hleaves
              rcases hstatement with hmoved | ⟨s', heq, -⟩
              · have hrecover := length_recover_lt (List.cons_ne_nil _ _) hleaves.2
                rw [List.length_cons] at hrecover
                rw [hmoved, Outcome.move_failed]
                dsimp only
                rw [ParseFault.offset_move hend, ← moved_cons,
                  recover_moved hbehind (List.cons_ne_nil _ _)]
                exact ih { t with errors := ⟨fault.offset size rest, .parse fault⟩ :: t.errors }
                  (by omega) (by omega)
              · cases heq

end SyntaxTree

end Moved

/-! ## The start of a statement -/

namespace Parser

variable {α β : Type}

/-- Whether a line break before the first lexeme means nothing to a parser: either it comes to the
same with and without one, or it fails there. -/
def Blind (p : Parser α) : Prop :=
  ∀ t offset newline newline' ls,
    p (⟨t, offset, newline⟩ :: ls) = p (⟨t, offset, newline'⟩ :: ls) ∨
      ∃ fault, p (⟨t, offset, newline⟩ :: ls) = .failed fault (⟨t, offset, newline⟩ :: ls) ∧
        p (⟨t, offset, newline'⟩ :: ls) = .failed fault (⟨t, offset, newline'⟩ :: ls)

theorem Blind.bind {p : Parser α} (hp : Blind p) (next : α → Parser β) : Blind (p >>= next) := by
  intro t offset newline newline' ls
  show Parser.bind p next _ = Parser.bind p next _ ∨ ∃ fault, Parser.bind p next _ = _ ∧
    Parser.bind p next _ = _
  simp only [Parser.bind]
  rcases hp t offset newline newline' ls with hsame | ⟨fault, hfails, hfails'⟩
  · exact .inl (by rw [hsame])
  · exact .inr ⟨fault, by rw [hfails], by rw [hfails']⟩

theorem blind_operand (n : Nat) (expr : Parser Expr) : Blind (operand n expr) := by
  intro t offset newline newline' ls
  cases t with
  | ident text =>
      left
      cases ls with
      | nil => rfl
      | cons l ls =>
          obtain ⟨t, offset', newline''⟩ := l
          cases t with
          | leftParen => cases newline'' <;> rfl
          | _ => rfl
  | number text => exact .inl rfl
  | str value => exact .inl rfl
  | leftParen => exact .inl rfl
  | _ => exact .inr ⟨_, rfl, rfl⟩

theorem blind_signed {operand : Parser Expr} (h : Blind operand) : Blind (signed operand) := by
  intro t offset newline newline' ls
  simp only [signed]
  by_cases ht : t = .operator .sub
  · simp only [if_pos ht, true_or]
  · simp only [if_neg ht]
    exact h t offset newline newline' ls

theorem blind_expr (n : Nat) : Blind (expr n) := by
  cases n with
  | zero => exact fun _ _ _ _ _ ↦ .inr ⟨_, rfl, rfl⟩
  | succ n => exact ((blind_signed (blind_operand n (expr n))).bind _).bind _

theorem blind_variableStmt (n : Nat) (isExported : Bool) : Blind (variableStmt n isExported) := by
  intro t offset newline newline' ls
  cases t with
  | keyword word =>
      cases word with
      | letWord => exact .inl rfl
      | constWord => exact .inl rfl
      | _ => exact .inr ⟨_, rfl, rfl⟩
  | ident text => exact .inl rfl
  | _ => exact .inr ⟨_, rfl, rfl⟩

theorem blind_statementBody (n : Nat) : Blind (statementBody n) := by
  intro t offset newline newline' ls
  have hexpr : Blind (Stmt.expr <$> expr n) := (blind_expr n).bind _
  cases t with
  | keyword word =>
      cases word with
      | letWord => exact blind_variableStmt n false (.keyword .letWord) offset newline newline' ls
      | constWord =>
          exact blind_variableStmt n false (.keyword .constWord) offset newline newline' ls
      | fromWord => exact hexpr (.keyword .fromWord) offset newline newline' ls
      | _ => exact .inl rfl
  | ident text =>
      cases ls with
      | nil => exact hexpr (.ident text) offset newline newline' []
      | cons l ls =>
          obtain ⟨t, offset', newline''⟩ := l
          cases t with
          | assign op => exact .inl rfl
          | _ => exact hexpr (.ident text) offset newline newline' _
  | _ => exact hexpr _ offset newline newline' ls

theorem blind_statement (n : Nat) : Blind (statement n) :=
  (blind_statementBody n).bind _

end Parser

namespace SyntaxTree

/-- It does not matter whether a line break stands before the first lexeme. -/
theorem readFrom_newline (size n : Nat) (tree : SyntaxTree) (t : Token) (offset : Nat)
    (newline newline' : Bool) (ls : List Lexeme) :
    readFrom size n tree (⟨t, offset, newline⟩ :: ls) =
      readFrom size n tree (⟨t, offset, newline'⟩ :: ls) := by
  cases n with
  | zero => rfl
  | succ n =>
      rw [readFrom, readFrom]
      rcases Parser.blind_statement (n + 1) t offset newline newline' ls with
        hsame | ⟨fault, hfails, hfails'⟩
      · rw [hsame]
        rfl
      · rw [hfails, hfails']
        dsimp only
        rw [recover_self, recover_self]
        cases fault <;> rfl

/-! ## Lexemes behind each other -/

/-- Where something is when the end of a text of `size` bytes is taken elsewhere. -/
def endTo (size place offset : Nat) : Nat :=
  if offset = size then place else offset

theorem endTo_self (size place : Nat) : endTo size place size = place :=
  if_pos rfl

theorem endTo_of_lt {size offset : Nat} (place : Nat) (h : offset < size) :
    endTo size place offset = offset :=
  if_neg (Nat.ne_of_lt h)

theorem readFrom_nil (size n : Nat) (t : SyntaxTree) : readFrom size n t [] = t := by
  cases n <;> rfl

theorem moved_endTo {size place : Nat} {ls : List Lexeme} (hls : ∀ l ∈ ls, l.offset < size)
    (behind : List Lexeme) : moved (endTo size place) behind ls = ls ++ behind := by
  have hmap : ls.map (Lexeme.move (endTo size place)) = ls.map id := by
    refine List.map_congr_left fun l hl ↦ ?_
    rw [Lexeme.move, endTo_of_lt place (hls l hl)]
    rfl
  rw [moved, hmap, List.map_id]

/-- The end of a text may be taken elsewhere without any statement being moved. -/
theorem move_endTo_statements {size : Nat} (place : Nat) {ls : List Lexeme}
    (hls : ∀ l ∈ ls, l.offset < size) :
    (ofLexemes size ls).statements.map (Stmt.move (endTo size place)) =
      (ofLexemes size ls).statements := by
  have hend : endTo size place size = nextOffset place [] := endTo_self size place
  obtain ⟨m, -, hread⟩ := readFrom_moved .nil hend ⟨[], []⟩ (Nat.le_refl ls.length)
    (Nat.le_refl ls.length)
  rw [moved_endTo hls, List.append_nil, List.tail_nil, readFrom_nil] at hread
  have hstatements := congrArg statements hread
  rw [statements_readFrom place size _ rfl] at hstatements
  rw [ofLexemes, List.map_reverse]
  exact congrArg List.reverse hstatements.symm

/-- What is read from moved lexemes is what is read from them as they are, but moved. -/
theorem ofLexemes_move {g : Nat → Nat} {size size' : Nat} (hsize : g size = size')
    (ls : List Lexeme) : ofLexemes size' (ls.map (Lexeme.move g)) = (ofLexemes size ls).move g := by
  have hend : g size = nextOffset size' [] := hsize
  obtain ⟨m, -, hread⟩ := readFrom_moved .nil hend ⟨[], []⟩ (Nat.le_refl ls.length)
    (Nat.le_refl ls.length)
  rw [moved, List.append_nil, List.tail_nil, readFrom_nil] at hread
  have hempty : SyntaxTree.move g ⟨[], []⟩ = ⟨[], []⟩ := rfl
  rw [hempty] at hread
  simp [ofLexemes, hread, SyntaxTree.move]

/-- How much is ahead at most makes no difference. -/
theorem readFrom_of_le {size n : Nat} {t : SyntaxTree} {ls : List Lexeme} (hn : ls.length ≤ n) :
    readFrom size n t ls = readFrom size ls.length t ls := by
  have hend : id size = nextOffset size [] := rfl
  have hplaces : Lexeme.move id = id := rfl
  obtain ⟨m, -, hread⟩ := readFrom_moved .nil hend t (Nat.le_refl ls.length) hn
  rwa [moved, hplaces, List.map_id, List.append_nil, List.tail_nil, readFrom_nil, move_id,
    move_id] at hread

/-- What stands on both sides of a semicolon on a line of its own is read as if it stood alone; only
an error at the end of what stands before is found at the semicolon. -/
theorem ofLexemes_semicolon {size place size' : Nat} {ls : List Lexeme}
    (hls : ∀ l ∈ ls, l.offset < size) (ls' : List Lexeme) :
    ofLexemes size' (ls ++ ⟨.semicolon, place, true⟩ :: ls') =
      ⟨(ofLexemes size ls).statements ++ (ofLexemes size' ls').statements,
        (ofLexemes size ls).errors.map (SyntaxError.move (endTo size place)) ++
          (ofLexemes size' ls').errors⟩ := by
  have hend : endTo size place size = nextOffset size' (⟨.semicolon, place, true⟩ :: ls') :=
    endTo_self size place
  obtain ⟨m, hm, hread⟩ := readFrom_moved (.semicolon place ls') hend ⟨[], []⟩
    (Nat.le_refl ls.length) (Nat.le_refl _)
  have hempty : SyntaxTree.move (endTo size place) ⟨[], []⟩ = ⟨[], []⟩ := rfl
  rw [List.tail_cons] at hm hread
  rw [moved_endTo hls, hempty, readFrom_of_le hm, readFrom_eq size' ls'.length] at hread
  have hstatements := move_endTo_statements place hls
  rw [ofLexemes, List.length_append, hread, ← hstatements]
  simp [ofLexemes, SyntaxTree.move]

/-! ## Texts behind each other -/

end SyntaxTree

/-- A lexical fault as an error of a module. -/
def SyntaxError.ofLexical (e : LexicalError) : SyntaxError := ⟨e.offset, .lexical e.fault⟩

namespace SyntaxTree

theorem ofText?_eq_some_iff {cs : List Char} {tree : SyntaxTree} :
    ofText? cs = some tree ↔
      (∀ p ∈ pieces cs, p.isUnreadable = false) ∧ ofScan (.ofPieces (pieces cs)) = tree := by
  simp [ofText?, Scan.ofText?]

theorem ofLexemes_ofPieces (cs : List Char) :
    ofLexemes (Scan.ofPieces (pieces cs)).size (Scan.ofPieces (pieces cs)).lexemes =
      ofLexemes (byteLength cs) (lexemesFrom 0 false (pieces cs)) := by
  rw [Scan.ofPieces_size, Scan.ofPieces_lexemes]

/-- The errors of a text are its lexical faults and those found in reading its lexemes. -/
theorem perm_errors (cs : List Char) : (ofScan (.ofPieces (pieces cs))).errors.Perm
    ((errorsFrom 0 (pieces cs)).map SyntaxError.ofLexical ++
      (ofLexemes (byteLength cs) (lexemesFrom 0 false (pieces cs))).errors) := by
  rw [← ofLexemes_ofPieces, ← Scan.ofPieces_errors]
  exact List.mergeSort_perm _ _

/-- It does not matter whether a text starts on a new line. -/
theorem ofLexemes_lexemesFrom (size start : Nat) (newline newline' : Bool) (ps : List Piece) :
    ofLexemes size (lexemesFrom start newline ps) =
      ofLexemes size (lexemesFrom start newline' ps) := by
  induction ps generalizing start newline newline' with
  | nil => rfl
  | cons p ps ih =>
      rw [lexemesFrom, lexemesFrom]
      split
      · rw [ofLexemes, ofLexemes, readFrom_newline]
        rfl
      · exact ih _ _ _

/-- A text that starts on a new line further behind is read as if it stood alone, but moved. -/
theorem ofLexemes_lexemesFrom_add (size k : Nat) (ps : List Piece) :
    ofLexemes (size + k) (lexemesFrom k true ps) =
      (ofLexemes size (lexemesFrom 0 false ps)).move (· + k) := by
  have hmoved := lexemesFrom_add 0 k false ps
  rw [Nat.zero_add] at hmoved
  rw [ofLexemes_lexemesFrom _ k true false, hmoved]
  exact ofLexemes_move (g := (· + k)) rfl _

/-- A semicolon on a line of its own. -/
def dividingLine : List Piece :=
  [⟨.gap, ['\n']⟩, ⟨.token .semicolon, [';']⟩, ⟨.gap, ['\n']⟩]

theorem pieces_dividingLine {cs : List Char} (cs' : List Char)
    (h : ∀ p ∈ pieces cs, p.kind ≠ .fault .unterminatedComment) :
    pieces (cs ++ "\n;\n".toList ++ cs') = pieces cs ++ dividingLine ++ pieces cs' := by
  have htext : cs ++ "\n;\n".toList ++ cs' = cs ++ '\n' :: ([';'] ++ '\n' :: cs') := by simp
  have hsemicolon : pieces [';'] = [⟨.token .semicolon, [';']⟩] := by decide +kernel
  rw [htext, pieces_lineBreak _ h, pieces_lineBreak, hsemicolon, List.append_assoc]
  · rfl
  · rw [hsemicolon]
    exact List.forall_mem_singleton.mpr nofun

/-- What is read on both sides of a dividing line. -/
theorem ofLexemes_dividingLine (cs cs' : List Char) :
    ofLexemes (byteLength cs' + (byteLength cs + 3))
        (lexemesFrom 0 false (pieces cs ++ dividingLine ++ pieces cs')) =
      let t := ofLexemes (byteLength cs) (lexemesFrom 0 false (pieces cs))
      let t' := ofLexemes (byteLength cs') (lexemesFrom 0 false (pieces cs'))
      ⟨t.statements ++ t'.statements.map (Stmt.move (· + (byteLength cs + 3))),
        t.errors.map (SyntaxError.move (endTo (byteLength cs) (byteLength cs + 1))) ++
          t'.errors.map (SyntaxError.move (· + (byteLength cs + 3)))⟩ := by
  obtain ⟨newline, hsplit⟩ := lexemesFrom_append 0 false (pieces cs) (dividingLine ++ pieces cs')
  have hplace (l : Lexeme) (hl : l ∈ lexemesFrom 0 false (pieces cs)) :
      l.offset < byteLength cs := by
    have hlt := offset_lt_of_mem_lexemesFrom (fun _ ↦ text_ne_nil_of_mem_pieces) hl
    rwa [flatMap_text_pieces, Nat.zero_add] at hlt
  have hline (start : Nat) : lexemesFrom start newline (dividingLine ++ pieces cs') =
      ⟨.semicolon, start + 1, true⟩ :: lexemesFrom (start + 3) true (pieces cs') := by
    simp [dividingLine, lexemesFrom, byteLength, Char.utf8Size, Nat.add_assoc]
  rw [List.append_assoc, hsplit, flatMap_text_pieces, Nat.zero_add, hline,
    ofLexemes_semicolon hplace, ofLexemes_lexemesFrom_add]
  rfl

/-- The lexical faults on both sides of a dividing line. -/
theorem errorsFrom_dividingLine (cs cs' : List Char) :
    (errorsFrom 0 (pieces cs ++ dividingLine ++ pieces cs')).map SyntaxError.ofLexical =
      ((errorsFrom 0 (pieces cs)).map SyntaxError.ofLexical).map
          (SyntaxError.move (endTo (byteLength cs) (byteLength cs + 1))) ++
        ((errorsFrom 0 (pieces cs')).map SyntaxError.ofLexical).map
          (SyntaxError.move (· + (byteLength cs + 3))) := by
  have hplace (e : LexicalError) (he : e ∈ errorsFrom 0 (pieces cs)) :
      (SyntaxError.ofLexical e).move (endTo (byteLength cs) (byteLength cs + 1)) =
        .ofLexical e := by
    have hlt := offset_lt_of_mem_errorsFrom (fun _ ↦ text_ne_nil_of_mem_pieces) he
    rw [flatMap_text_pieces, Nat.zero_add] at hlt
    rw [SyntaxError.ofLexical, SyntaxError.move, endTo_of_lt _ hlt]
    rfl
  have hline (start : Nat) : errorsFrom start (dividingLine ++ pieces cs') =
      errorsFrom (start + 3) (pieces cs') := by
    simp [dividingLine, errorsFrom, byteLength, Char.utf8Size, Nat.add_assoc]
  have hmoved := errorsFrom_add 0 (byteLength cs + 3) (pieces cs')
  rw [Nat.zero_add] at hmoved
  rw [List.append_assoc, errorsFrom_append, flatMap_text_pieces, hline, Nat.zero_add, hmoved,
    List.map_append, List.map_map, List.map_map, List.map_map]
  exact congrArg (· ++ _) (List.map_congr_left fun e he ↦ (hplace e he).symm)

/-- Every fault of a text is an error of the module. -/
theorem closed_of_errors {cs : List Char} {tree : SyntaxTree} (h : ofText? cs = some tree)
    (hclosed : ∀ e ∈ tree.errors, e.fault ≠ .lexical .unterminatedComment) :
    ∀ p ∈ pieces cs, p.kind ≠ .fault .unterminatedComment := by
  obtain ⟨-, rfl⟩ := ofText?_eq_some_iff.mp h
  intro p hp hkind
  obtain ⟨e, he, hfault⟩ := exists_mem_errorsFrom hp hkind 0
  refine hclosed (.ofLexical e) ?_ (congrArg SyntaxFault.lexical hfault)
  exact (perm_errors cs).mem_iff.mpr (List.mem_append_left _ (List.mem_map_of_mem he))

/-- Two texts with a semicolon on a line of its own between them are read as if each stood alone,
whatever is wrong with them, if the first one does not end in a comment: the statements are those of
the first one and then those of the second one, and so are the errors.  Those at the end of the
first text are found at the semicolon. -/
theorem ofText?_dividingLine {cs cs' : List Char} {tree tree' : SyntaxTree}
    (h : ofText? cs = some tree) (h' : ofText? cs' = some tree')
    (hclosed : ∀ e ∈ tree.errors, e.fault ≠ .lexical .unterminatedComment) :
    ∃ joined, ofText? (cs ++ "\n;\n".toList ++ cs') = some joined ∧
      joined.statements =
        tree.statements ++ tree'.statements.map (Stmt.move (· + (byteLength cs + 3))) ∧
      joined.errors.Perm
        (tree.errors.map (SyntaxError.move (endTo (byteLength cs) (byteLength cs + 1))) ++
          tree'.errors.map (SyntaxError.move (· + (byteLength cs + 3)))) := by
  have hpieces := pieces_dividingLine cs' (closed_of_errors h hclosed)
  obtain ⟨hreadable, rfl⟩ := ofText?_eq_some_iff.mp h
  obtain ⟨hreadable', rfl⟩ := ofText?_eq_some_iff.mp h'
  have hsize : byteLength (cs ++ "\n;\n".toList ++ cs') = byteLength cs' + (byteLength cs + 3) := by
    have hthree : byteLength "\n;\n".toList = 3 := by decide +kernel
    rw [byteLength_append, byteLength_append, hthree, Nat.add_comm]
  have hread := ofLexemes_dividingLine cs cs'
  rw [← hpieces, ← hsize, ← ofLexemes_ofPieces, ← ofLexemes_ofPieces, ← ofLexemes_ofPieces] at hread
  refine ⟨_, ofText?_eq_some_iff.mpr ⟨?_, rfl⟩, congrArg statements hread, ?_⟩
  · intro p hp
    rw [hpieces, List.mem_append, List.mem_append] at hp
    rcases hp with (hp | hp) | hp
    · exact hreadable p hp
    · revert p
      decide
    · exact hreadable' p hp
  · refine (perm_errors _).trans ?_
    rw [← ofLexemes_ofPieces, hread, hpieces, errorsFrom_dividingLine]
    have hswap {as bs cs ds : List SyntaxError} :
        (as ++ bs ++ (cs ++ ds)).Perm (as ++ cs ++ (bs ++ ds)) := by
      rw [List.append_assoc, List.append_assoc]
      exact (List.perm_append_comm_assoc bs cs ds).append_left as
    refine hswap.trans ?_
    rw [ofLexemes_ofPieces, ofLexemes_ofPieces, ← List.map_append, ← List.map_append]
    exact ((perm_errors cs).symm.map _).append ((perm_errors cs').symm.map _)

/-- A module with a string that is not closed, and which ends in the middle of a call. -/
def openCall : String := "let y = 2\n'abc\nf(1,"

/-- A module that starts in the middle of a statement and ends in a comment. -/
def strayValue : String := "= 3\nlet x = y /* 1"

theorem ofText?_dividingLine_openCall :
    ∃ tree tree' joined, ofText? openCall.toList = some tree ∧ tree.statements.length = 1 ∧
      tree.errors = [⟨10, .lexical .unterminatedString⟩, ⟨19, .parse .expressionExpected⟩] ∧
      ofText? strayValue.toList = some tree' ∧
      ofText? (openCall ++ "\n;\n" ++ strayValue).toList = some joined ∧
      joined.statements = tree.statements ++ tree'.statements.map (Stmt.move (· + 22)) ∧
      joined.errors.Perm (tree.errors.map (SyntaxError.move (endTo 19 20)) ++
        tree'.errors.map (SyntaxError.move (· + 22))) := by
  obtain ⟨scan, hscan⟩ : ∃ scan, Scan.ofText? openCall.toList = some scan :=
    Option.isSome_iff_exists.mp (by decide +kernel)
  have htree : ofText? openCall.toList = some (ofScan scan) := by rw [ofText?, hscan]; rfl
  obtain ⟨tree', htree'⟩ : ∃ tree, ofText? strayValue.toList = some tree :=
    Option.isSome_iff_exists.mp (by decide +kernel)
  have hproperties : (Scan.ofText? openCall.toList).map (fun s ↦ (s.errors,
      (ofLexemes s.size s.lexemes).errors, (ofLexemes s.size s.lexemes).statements.length)) =
      some ([⟨10, .unterminatedString⟩], [⟨19, .parse .expressionExpected⟩], 1) := by
    decide +kernel
  simp only [hscan, Option.map_some, Option.some.injEq, Prod.mk.injEq] at hproperties
  obtain ⟨hlexical, hparse, hlength⟩ := hproperties
  have herrors : (ofScan scan).errors =
      [⟨10, .lexical .unterminatedString⟩, ⟨19, .parse .expressionExpected⟩] := by
    rw [ofScan, hlexical, hparse]
    exact List.mergeSort_of_pairwise (by decide)
  have hclosed : ∀ e ∈ (ofScan scan).errors, e.fault ≠ .lexical .unterminatedComment := by
    rw [herrors]
    decide
  have hsize : byteLength openCall.toList = 19 := by decide +kernel
  obtain ⟨joined, hjoined, hstatements, hperm⟩ := ofText?_dividingLine htree htree' hclosed
  rw [← String.toList_append, ← String.toList_append] at hjoined
  rw [hsize] at hstatements hperm
  exact ⟨ofScan scan, tree', joined, htree, hlength, herrors, htree', hjoined, hstatements, hperm⟩

end SyntaxTree

end PipedCompiler.Language
