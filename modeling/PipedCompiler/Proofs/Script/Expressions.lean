import PipedCompiler.Proofs.Language.Writing
import PipedCompiler.Proofs.Script.Elements

/-!
# Emitted expressions as scripts

Which tokens an emitted expression has where it is read as a script.  They are those of the source,
unless two signs stand side by side there, which are emitted without a space and become one token,
or a string has a null character before a digit.
-/

namespace PipedCompiler.Language

open PipedCompiler.Script (Edition Quotable Begins Reads begins_name begins_number begins_space begins_mark
  begins_literal quotable_of_reads emittedMarks followers)

/-! ## Tokens -/

/-- A token of the source as one of a script. -/
def Token.script : Token → Script.Token
  | .ident text => .name text
  | .number text => .number text
  | .str value => .str value
  | .keyword word => .name word.text
  | .assign op => .mark op.text
  | .operator op => .mark op.text
  | .leftParen => .mark "("
  | .rightParen => .mark ")"
  | .comma => .mark ","
  | .semicolon => .mark ";"

/-- The tokens of a spelling as those of a script. -/
def scriptOf (ms : List Mark) : List Script.Token :=
  ms.map (·.token.script)

/-- Whether an expression can be emitted so that it is read back: no sign stands directly before
another, and the strings can be quoted. -/
inductive Expr.Legible (ed : Edition) : Expr → Prop
  | number {text : String} : Legible ed (.number text)
  | str {value : String} (h : Quotable ed value.toList) : Legible ed (.str value)
  | name {name : Name} : Legible ed (.name name)
  | neg {operand : Expr} (h : operand.Legible ed) (hsign : ∀ e, operand ≠ .neg e) :
      Legible ed (.neg operand)
  | binary {op : BinaryOp} {lhs rhs : Expr} (hlhs : lhs.Legible ed) (hrhs : rhs.Legible ed) :
      Legible ed (.binary op lhs rhs)
  | call {callee : Name} {args : List Expr} (h : ∀ arg ∈ args, arg.Legible ed) :
      Legible ed (.call callee args)
  | paren {inner : Expr} (h : inner.Legible ed) : Legible ed (.paren inner)

namespace Expr

variable {ed : Edition}

theorem legible_str_iff {value : String} :
    (str value).Legible ed ↔ Quotable ed value.toList := by
  refine ⟨fun h ↦ ?_, .str⟩
  cases h with
  | str h => exact h

theorem legible_neg_iff {operand : Expr} :
    (neg operand).Legible ed ↔ (∀ e, operand ≠ .neg e) ∧ operand.Legible ed := by
  refine ⟨fun h ↦ ?_, fun h ↦ .neg h.2 h.1⟩
  cases h with
  | neg h hsign => exact ⟨hsign, h⟩

theorem legible_binary_iff {op : BinaryOp} {lhs rhs : Expr} :
    (binary op lhs rhs).Legible ed ↔ lhs.Legible ed ∧ rhs.Legible ed := by
  refine ⟨fun h ↦ ?_, fun h ↦ .binary h.1 h.2⟩
  cases h with
  | binary hlhs hrhs => exact ⟨hlhs, hrhs⟩

theorem legible_call_iff {callee : Name} {args : List Expr} :
    (call callee args).Legible ed ↔ ∀ arg ∈ args, arg.Legible ed := by
  refine ⟨fun h ↦ ?_, .call⟩
  cases h with
  | call h => exact h

theorem legible_paren_iff {inner : Expr} : (paren inner).Legible ed ↔ inner.Legible ed := by
  refine ⟨fun h ↦ ?_, .paren⟩
  cases h with
  | paren h => exact h

end Expr

/-! ## Reading -/

theorem delimits_nil : Delimits [] := nofun

section Reading

variable {ed : Edition} {b : Bool} {cs rest : List Char} {ts : List Script.Token}

theorem reads_word_iff {text : String} (h : IsWord text.toList) (hrest : Delimits rest) :
    Reads ed b (text.toList ++ rest) (.name text :: ts) ↔ Reads ed true rest ts := by
  have hbegins : Begins ed b text.toList rest _ :=
    begins_name h (hrest.endsBefore (.ident text))
  rw [String.ofList_toList] at hbegins
  rw [hbegins.reads_token_iff, eq_self, true_and]
  rfl

theorem reads_numeral_iff {text : String} (h : IsNumeral text.toList) (hrest : Delimits rest) :
    Reads ed b (text.toList ++ rest) (.number text :: ts) ↔ Reads ed true rest ts := by
  have hbegins : Begins ed b text.toList rest _ :=
    begins_number h (hrest.endsBefore (.number text))
  rw [String.ofList_toList] at hbegins
  rw [hbegins.reads_token_iff, eq_self, true_and]
  rfl

theorem reads_literal_iff {value : String} :
    Reads ed b (literal value ++ rest) (.str value :: ts) ↔
      Quotable ed value.toList ∧ Reads ed true rest ts := by
  constructor
  · intro h
    have hquotable := quotable_of_reads h
    exact ⟨hquotable, ((begins_literal hquotable).reads_token_iff.mp h).2⟩
  · rintro ⟨hquotable, h⟩
    exact (begins_literal hquotable).reads_token_iff.mpr ⟨rfl, h⟩

theorem reads_space_iff : Reads ed b (' ' :: rest) ts ↔ Reads ed b rest ts := by
  have hbegins : Begins ed b [' '] rest .gap := begins_space
  exact hbegins.reads_gap_iff

theorem reads_mark_iff {m : String} (hm : m ∈ emittedMarks) (hslash : m ≠ "/" ∨ b = true)
    (hrest : ∀ d ∈ rest.head?, d ∉ followers m) :
    Reads ed b (m.toList ++ rest) (.mark m :: ts) ↔
      Reads ed (Script.Token.mark m).endsOperand rest ts := by
  rw [(begins_mark hm hslash hrest).reads_token_iff, eq_self, true_and]

/-- Parentheses and commas go on as nothing else. -/
theorem reads_closed_iff {m : String} (hm : m ∈ ["(", ")", ","]) :
    Reads ed b (m.toList ++ rest) (.mark m :: ts) ↔
      Reads ed (Script.Token.mark m).endsOperand rest ts := by
  have hclosed : ∀ m ∈ ["(", ")", ","], m ∈ emittedMarks ∧ m ≠ "/" ∧ followers m = [] := by decide
  obtain ⟨hmark, hslash, hfollowers⟩ := hclosed m hm
  exact reads_mark_iff hmark (.inl hslash) fun d _ hd ↦ nomatch hfollowers ▸ hd

theorem reads_leftParen_iff :
    Reads ed b ('(' :: rest) (.mark "(" :: ts) ↔ Reads ed false rest ts :=
  reads_closed_iff (m := "(") (by decide)

theorem reads_rightParen_iff :
    Reads ed b (')' :: rest) (.mark ")" :: ts) ↔ Reads ed true rest ts :=
  reads_closed_iff (m := ")") (by decide)

theorem reads_comma_iff :
    Reads ed b (',' :: rest) (.mark "," :: ts) ↔ Reads ed false rest ts :=
  reads_closed_iff (m := ",") (by decide)

theorem reads_sign_iff (hrest : ∀ d ∈ rest.head?, d ∉ ['-', '=']) :
    Reads ed b ('-' :: rest) (.mark "-" :: ts) ↔ Reads ed false rest ts :=
  reads_mark_iff (m := "-") (by decide) (.inl (by decide)) hrest

/-- Two signs side by side are one mark. -/
theorem begins_signs : Begins ed b "--".toList rest (.token (.mark "--")) := by
  have hfollowers : followers "--" = [] := by decide
  exact begins_mark (by decide) (.inl (by decide)) fun d _ hd ↦ nomatch hfollowers ▸ hd

theorem not_reads_signs : ¬ Reads ed b ('-' :: '-' :: rest) (.mark "-" :: ts) :=
  fun h ↦ absurd (begins_signs.reads_token_iff.mp h).1 (by decide)

/-- An operator behind its left operand, with spaces around it. -/
theorem reads_operator_iff {op : BinaryOp} :
    Reads ed true (' ' :: (op.text.toList ++ ' ' :: rest)) (.mark op.text :: ts) ↔
      Reads ed false rest ts := by
  have hop : op.text ∈ emittedMarks ∧ ' ' ∉ followers op.text ∧
      (Script.Token.mark op.text).endsOperand = false := by
    cases op <;> decide
  obtain ⟨hmark, hspace, hends⟩ := hop
  rw [reads_space_iff, reads_mark_iff hmark (.inr rfl) (by rintro _ ⟨⟩; exact hspace), hends,
    reads_space_iff]

end Reading

/-! ## Expressions -/

theorem IsWord.exists_head {cs : List Char} (h : IsWord cs) :
    ∃ c ds, cs = c :: ds ∧ startsWord c = true := by
  cases h with
  | @intro c ds _ _ hstarts _ => exact ⟨c, ds, rfl, hstarts⟩

theorem IsNumeral.exists_head {cs : List Char} (h : IsNumeral cs) :
    ∃ c ds, cs = c :: ds ∧ c.isDigit = true := by
  cases h with
  | @whole c ds _ hdigit _ => exact ⟨c, ds, rfl, hdigit⟩
  | @fraction c ds es _ hdigit _ _ => exact ⟨c, ds ++ '.' :: es, rfl, hdigit⟩

/-- What a sign stands before starts with a sign only if it is signed itself. -/
theorem Expr.exists_head_emit {e : Expr} (hrank : 2 ≤ e.rank) (hsign : ∀ d, e ≠ .neg d)
    (h : ∀ m ∈ e.marks, m.token.Readable) :
    ∃ c cs, e.emit = c :: cs ∧ c ∉ ['-', '='] := by
  have hwords : ∀ d ∈ ['-', '='], startsWord d = false := by decide +kernel
  have hdigits : ∀ d ∈ ['-', '='], d.isDigit = false := by decide
  cases e with
  | number text =>
      obtain ⟨c, cs, htext, hc⟩ := IsNumeral.exists_head (h _ List.mem_cons_self)
      exact ⟨c, cs, htext, fun hmem ↦ nomatch hc.symm.trans (hdigits c hmem)⟩
  | str value => exact ⟨'"', _, rfl, by decide⟩
  | name n =>
      obtain ⟨c, cs, htext, hc⟩ := IsWord.exists_head (h _ List.mem_cons_self).1
      exact ⟨c, cs, htext, fun hmem ↦ nomatch hc.symm.trans (hwords c hmem)⟩
  | neg operand => exact absurd rfl (hsign operand)
  | binary op lhs rhs => exact absurd hrank (by cases op <;> simp [Expr.rank, BinaryOp.rank])
  | call callee args =>
      obtain ⟨c, cs, htext, hc⟩ := IsWord.exists_head (h _ List.mem_cons_self).1
      exact ⟨c, _, by rw [Expr.emit, htext]; rfl, fun hmem ↦ nomatch hc.symm.trans (hwords c hmem)⟩
  | paren inner => exact ⟨'(', _, rfl, by decide⟩

/-- Arguments are read one after the other, with commas between them. -/
theorem reads_emitArguments_iff {args : List Expr} {ed : Edition} {b : Bool} {rest : List Char}
    {ts : List Script.Token}
    (hargs : ∀ arg ∈ args, ∀ {b rest ts}, Delimits rest →
      (Reads ed b (arg.emit ++ rest) (scriptOf arg.marks ++ ts) ↔
        arg.Legible ed ∧ Reads ed true rest ts)) :
    Reads ed b (Expr.emitArguments args ++ ')' :: rest)
        (scriptOf (Expr.marksOfArguments args) ++ .mark ")" :: ts) ↔
      (∀ arg ∈ args, arg.Legible ed) ∧ Reads ed true rest ts := by
  induction args generalizing b with
  | nil => exact reads_rightParen_iff.trans (and_iff_right nofun).symm
  | cons e args ih =>
      rw [List.forall_mem_cons] at hargs
      obtain ⟨he, hargs⟩ := hargs
      cases args with
      | nil =>
          rw [Expr.emitArguments, Expr.marksOfArguments, he (delimits_cons (by decide)),
            reads_rightParen_iff, List.forall_mem_singleton]
      | cons d args =>
          have htext : Expr.emitArguments (e :: d :: args) ++ ')' :: rest =
              e.emit ++ ',' :: ' ' :: (Expr.emitArguments (d :: args) ++ ')' :: rest) := by
            simp [Expr.emitArguments]
          have htokens : scriptOf (Expr.marksOfArguments (e :: d :: args)) ++ .mark ")" :: ts =
              scriptOf e.marks ++ .mark "," ::
                (scriptOf (Expr.marksOfArguments (d :: args)) ++ .mark ")" :: ts) := by
            simp [Expr.marksOfArguments, scriptOf, Mark.free, Token.script]
          rw [htext, htokens, he (delimits_cons (by decide)), reads_comma_iff, reads_space_iff,
            ih hargs, ← and_assoc, ← List.forall_mem_cons]

/-- An emitted expression before what ends it is read as the tokens that spell it just if it is
legible. -/
theorem Expr.reads_emit_iff {e : Expr} (hgrouped : e.Grouped)
    (h : ∀ m ∈ e.marks, m.token.Readable) {ed : Edition} {b : Bool} {rest : List Char}
    {ts : List Script.Token} (hrest : Delimits rest) :
    Reads ed b (e.emit ++ rest) (scriptOf e.marks ++ ts) ↔
      e.Legible ed ∧ Reads ed true rest ts := by
  -- what is behind an expression is arbitrary, as it differs from part to part
  induction e generalizing b rest ts with
  | number text =>
      exact (reads_numeral_iff (h _ List.mem_cons_self) hrest).trans
        (and_iff_right .number).symm
  | str value => exact reads_literal_iff.trans (and_congr_left' legible_str_iff.symm)
  | name n =>
      exact (reads_word_iff (h _ List.mem_cons_self).1 hrest).trans (and_iff_right .name).symm
  | neg operand ih =>
      rw [Expr.marks, List.forall_mem_cons] at h
      cases hgrouped with
      | neg hoperand hrank =>
          rw [legible_neg_iff, and_assoc, ← ih hoperand h.2 hrest]
          by_cases hsign : ∀ d, operand ≠ .neg d
          · obtain ⟨c, cs, hemit, hc⟩ := Expr.exists_head_emit hrank hsign h.2
            have hhead : ∀ d ∈ (operand.emit ++ rest).head?, d ∉ ['-', '='] := by
              rw [hemit]
              rintro _ ⟨⟩
              exact hc
            exact (reads_sign_iff hhead).trans (and_iff_right hsign).symm
          · -- two signs become one token, so neither side holds
            obtain ⟨d, rfl⟩ : ∃ d, operand = .neg d := by simpa using hsign
            exact iff_of_false not_reads_signs fun h ↦ hsign h.1
  | binary op lhs rhs ihlhs ihrhs =>
      rw [Expr.marks, List.forall_mem_append, List.forall_mem_cons] at h
      cases hgrouped with
      | binary hlhs hrhs _ _ =>
          have htext : (Expr.binary op lhs rhs).emit ++ rest =
              lhs.emit ++ ' ' :: (op.text.toList ++ ' ' :: (rhs.emit ++ rest)) := by
            simp [Expr.emit]
          have htokens : scriptOf (Expr.binary op lhs rhs).marks ++ ts =
              scriptOf lhs.marks ++ .mark op.text :: (scriptOf rhs.marks ++ ts) := by
            simp [Expr.marks, scriptOf, Mark.free, Token.script]
          rw [htext, htokens, ihlhs hlhs h.1 (delimits_cons (by decide)), reads_operator_iff,
            ihrhs hrhs h.2.2 hrest, legible_binary_iff, and_assoc]
  | call callee args ih =>
      rw [Expr.marks, List.forall_mem_cons, List.forall_mem_cons, List.forall_mem_append] at h
      cases hgrouped with
      | call hgrouped =>
          have htext : (Expr.call callee args).emit ++ rest =
              callee.text.toList ++ '(' :: (Expr.emitArguments args ++ ')' :: rest) := by
            simp [Expr.emit]
          have htokens : scriptOf (Expr.call callee args).marks ++ ts = .name callee.text ::
              .mark "(" :: (scriptOf (Expr.marksOfArguments args) ++ .mark ")" :: ts) := by
            simp [Expr.marks, scriptOf, Mark.free, Token.script]
          rw [htext, htokens, reads_word_iff h.1.1 (delimits_cons (by decide)),
            reads_leftParen_iff, legible_call_iff]
          exact reads_emitArguments_iff fun arg harg ↦ ih arg harg (hgrouped arg harg) fun m hm ↦
            h.2.2.1 m (Expr.mem_marksOfArguments harg hm)
  | paren inner ih =>
      rw [Expr.marks, List.forall_mem_cons, List.forall_mem_append] at h
      cases hgrouped with
      | paren hgrouped =>
          have htext : (Expr.paren inner).emit ++ rest = '(' :: (inner.emit ++ ')' :: rest) := by
            simp [Expr.emit]
          have htokens : scriptOf (Expr.paren inner).marks ++ ts =
              .mark "(" :: (scriptOf inner.marks ++ .mark ")" :: ts) := by
            simp [Expr.marks, scriptOf, Mark.free, Token.script]
          rw [htext, htokens, reads_leftParen_iff,
            ih hgrouped h.2.1 (delimits_cons (by decide)), reads_rightParen_iff, legible_paren_iff]

/-- An expression that is parsed from a text is emitted as a text that is read as the tokens of the
source just if it is legible, wherever it stands in a script. -/
theorem Expr.reads_emit_parsed_iff {cs : List Char} {scan : Scan}
    (hscan : Scan.ofText? cs = some scan) {ls rest : List Lexeme} (hls : ls <:+ scan.lexemes)
    {bound : Nat} {e : Expr} (hparsed : Parser.expr bound ls = .parsed e rest) (ed : Edition) :
    ∃ taken, ls = taken ++ rest ∧
      (Reads ed false e.emit (taken.map (·.token.script)) ↔ e.Legible ed) ∧
      ∀ b after ts, Delimits after →
        (Reads ed b (e.emit ++ after) (taken.map (·.token.script) ++ ts) ↔
          e.Legible ed ∧ Reads ed true after ts) := by
  obtain ⟨taken, rfl, hspells, hat⟩ := Parser.reads_expr bound hparsed
  have htokens : taken.map (·.token.script) = scriptOf e.marks := by
    have hmap := congrArg (List.map Token.script) hspells.map_token
    rwa [List.map_map, List.map_map] at hmap
  have hreadable : ∀ m ∈ e.marks, m.token.Readable := by
    intro m hm
    have hmem : m.token ∈ taken.map Lexeme.token := hspells.map_token ▸ List.mem_map_of_mem hm
    obtain ⟨l, hl, htoken⟩ := List.mem_map.mp hmem
    exact htoken ▸ Scan.readable_of_ofText? hscan l
      (hls.subset (List.mem_append_left rest hl))
  have hreads := @Expr.reads_emit_iff e hat.grouped hreadable ed
  refine ⟨taken, rfl, ?_, fun b after ts hafter ↦ htokens ▸ hreads hafter⟩
  have halone := @hreads false [] [] delimits_nil
  rw [List.append_nil, List.append_nil] at halone
  rw [htokens, halone]
  exact and_iff_left .nil

/-- A text with a sign before a call, and a null character that no digit follows. -/
def signedCall : Scan where
  lexemes := [⟨.operator .sub, 0, false⟩, ⟨.ident "f", 1, false⟩, ⟨.leftParen, 2, false⟩,
    ⟨.str "\x00a", 3, false⟩, ⟨.rightParen, 8, false⟩, ⟨.operator .div, 10, false⟩,
    ⟨.number "2", 12, false⟩]
  errors := []
  size := 13
  newlineAtEnd := false

theorem Expr.reads_emit_parsed_signedCall :
    Scan.ofText? "-f('\\0a') / 2".toList = some signedCall ∧
      ∃ e, Parser.expr 7 signedCall.lexemes = .parsed e [] ∧
        Reads .es5 false e.emit [.mark "-", .name "f", .mark "(", .str "\x00a", .mark ")",
          .mark "/", .number "2"] := by
  have hscan : Scan.ofText? "-f('\\0a') / 2".toList = some signedCall := by decide +kernel
  have hparsed : Parser.expr 7 signedCall.lexemes =
      .parsed (.binary .div (.neg (.call ⟨"f", 1⟩ [.str "\x00a"])) (.number "2")) [] := rfl
  have hquotable : Quotable .es5 "\x00a".toList := ⟨by decide, by decide⟩
  have hlegible : Legible .es5
      (.binary .div (.neg (.call ⟨"f", 1⟩ [.str "\x00a"])) (.number "2")) :=
    .binary (.neg (.call (by simpa using .str hquotable)) nofun) .number
  obtain ⟨taken, htaken, hreads, -⟩ :=
    reads_emit_parsed_iff hscan (List.suffix_refl _) hparsed .es5
  rw [List.append_nil] at htaken
  refine ⟨hscan, _, hparsed, ?_⟩
  have htokens := hreads.mpr hlegible
  rwa [← htaken] at htokens

/-- Two signs side by side are read as another mark, and a null character before a digit is not
read. -/
theorem Expr.not_reads_emit_parsed :
    (∃ scan e, Scan.ofText? "- -x".toList = some scan ∧
      Parser.expr scan.lexemes.length scan.lexemes = .parsed e [] ∧ ∀ ed,
        ¬ Reads ed false e.emit (scan.lexemes.map (·.token.script)) ∧
        Reads ed false e.emit [.mark "--", .name "x"]) ∧
    ∃ scan e, Scan.ofText? "'\\01'".toList = some scan ∧
      Parser.expr scan.lexemes.length scan.lexemes = .parsed e [] ∧
      ∀ ed ts, ¬ Reads ed false e.emit ts := by
  constructor
  · refine ⟨⟨[⟨.operator .sub, 0, false⟩, ⟨.operator .sub, 2, false⟩, ⟨.ident "x", 3, false⟩], [],
      4, false⟩, .neg (.neg (.name ⟨"x", 3⟩)), by decide +kernel, rfl,
      fun ed ↦ ⟨not_reads_signs, ?_⟩⟩
    have hword : IsWord "x".toList :=
      .of_letters (by decide) (by decide +kernel)
    have hname : Reads ed false ("x".toList ++ []) [.name "x"] :=
      (reads_word_iff hword delimits_nil).mpr .nil
    exact .token begins_signs hname
  · refine ⟨⟨[⟨.str "\x001", 0, false⟩], [], 5, false⟩, .str "\x001", by decide +kernel, rfl,
      fun ed ts h ↦ ?_⟩
    have hread : Reads ed false (literal "\x001" ++ []) ts := by rwa [List.append_nil]
    have hnull := (quotable_of_reads hread).null
    revert hnull
    decide

end PipedCompiler.Language
