import PipedCompiler.Proofs.Language.Accepting
import PipedCompiler.Proofs.Language.Cutting
import PipedCompiler.Proofs.Language.Remainder

/-!
# Emitted modules are read back

The text that is emitted for statements is cut into pieces that spell these statements.  So a module
without imports and exports is read back from its text, apart from declarations of outside names,
which are not emitted.
-/

namespace PipedCompiler.Language

open PipedCompiler.Text

/-! ## Pieces that spell something -/

/-- Whether a spelling may start on another line. -/
def Unjoined (ms : List Mark) : Prop :=
  ∀ m ∈ ms.head?, m.joined = false

theorem unjoined_free {t : Token} {ms : List Mark} : Unjoined (.free t :: ms) := by
  rintro _ ⟨⟩
  rfl

theorem Expr.unjoined_marks (e : Expr) (ms : List Mark) : Unjoined (e.marks ++ ms) := by
  obtain ⟨t, ns, hmarks, -⟩ := e.marks_eq_cons
  rw [hmarks]
  exact unjoined_free

theorem Stmt.unjoined_marks (s : Stmt) (ms : List Mark) : Unjoined (s.marks ++ ms) := by
  obtain ⟨t, ns, hmarks, -⟩ := s.marks_eq_cons
  rw [hmarks]
  exact unjoined_free

/-- Whether pieces spell something.  There may be gaps before the tokens that need not stand on the
line of the one before. -/
inductive Written : List Mark → List Piece → Prop
  | nil : Written [] []
  | gap {ms : List Mark} {ps : List Piece} {text : List Char} (hms : Unjoined ms)
      (h : Written ms ps) : Written ms (⟨.gap, text⟩ :: ps)
  | token {m : Mark} {ms : List Mark} {ps : List Piece} {text : List Char}
      (hreadable : (⟨.token m.token, text⟩ : Piece).isUnreadable = false) (h : Written ms ps) :
      Written (m :: ms) (⟨.token m.token, text⟩ :: ps)

namespace Written

theorem append {ms ns : List Mark} {ps qs : List Piece} (h : Written ms ps) (h' : Written ns qs)
    (hns : Unjoined ns) : Written (ms ++ ns) (ps ++ qs) := by
  induction h with
  | nil => exact h'
  | @gap ms ps text hms _ ih =>
      refine .gap ?_ ih
      cases ms with
      | nil => exact hns
      | cons m ms => exact hms
  | token hreadable _ ih => exact .token hreadable ih

theorem readable {ms : List Mark} {ps : List Piece} (h : Written ms ps) :
    ∀ p ∈ ps, p.isUnreadable = false := by
  induction h with
  | nil => exact nofun
  | gap _ _ ih => exact List.forall_mem_cons.mpr ⟨rfl, ih⟩
  | token hreadable _ ih => exact List.forall_mem_cons.mpr ⟨hreadable, ih⟩

/-- Pieces that spell something are added without errors, as lexemes that spell it. -/
theorem foldl_add {ms : List Mark} {ps : List Piece} (h : Written ms ps) (s : Scan)
    (hjoined : s.newlineAtEnd = false ∨ Unjoined ms) :
    ∃ ls, Spells ms ls ∧ (ps.foldl Scan.add s).lexemes = ls.reverse ++ s.lexemes ∧
      (ps.foldl Scan.add s).errors = s.errors := by
  induction h generalizing s with
  | nil => exact ⟨[], .nil, rfl, rfl⟩
  | gap hms _ ih => exact ih _ (.inr hms)
  | @token m ms ps text _ _ ih =>
      obtain ⟨ls, hspells, hlexemes, herrors⟩ := ih (s.add ⟨.token m.token, text⟩) (.inl rfl)
      refine ⟨⟨m.token, s.size, s.newlineAtEnd⟩ :: ls, .cons ⟨rfl, ?_⟩ hspells, ?_, herrors⟩
      · intro hm
        obtain hend | hfree := hjoined
        · exact hend
        · exact nomatch hm.symm.trans (hfree m rfl)
      · rw [List.foldl_cons, hlexemes]
        simp [Scan.add]

end Written

/-- Whether a text before another is cut into pieces that spell something. -/
def CutInto (ms : List Mark) (cs rest : List Char) : Prop :=
  ∃ ps, pieces (cs ++ rest) = ps ++ pieces rest ∧ Written ms ps

namespace CutInto

variable {ms ns : List Mark} {cs ds rest : List Char}

theorem nil : CutInto [] [] rest :=
  ⟨[], rfl, .nil⟩

theorem append (h : CutInto ms cs (ds ++ rest)) (h' : CutInto ns ds rest) (hns : Unjoined ns) :
    CutInto (ms ++ ns) (cs ++ ds) rest := by
  obtain ⟨ps, hps, hms⟩ := h
  obtain ⟨qs, hqs, hns'⟩ := h'
  refine ⟨ps ++ qs, ?_, hms.append hns' hns⟩
  rw [List.append_assoc, hps, hqs, List.append_assoc]

theorem gap {c : Char} (hc : isBlank c = true) (h : CutInto ms cs rest) (hms : Unjoined ms) :
    CutInto ms (c :: cs) rest := by
  obtain ⟨ps, hps, hwritten⟩ := h
  refine ⟨⟨.gap, [c]⟩ :: ps, ?_, .gap hms hwritten⟩
  rw [List.cons_append, pieces_blank hc, hps, List.cons_append]

theorem cons {m : Mark} (hm : m.token.Readable) (hends : m.token.EndsBefore (ds ++ rest))
    (h : CutInto ms ds rest) : CutInto (m :: ms) (m.token.chars ++ ds) rest := by
  obtain ⟨ps, hps, hwritten⟩ := h
  obtain ⟨hcut, hreadable⟩ := pieces_chars hm hends
  refine ⟨⟨.token m.token, m.token.chars⟩ :: ps, ?_, .token hreadable hwritten⟩
  rw [List.append_assoc, hcut, hps, List.cons_append]

/-- A text that is cut into pieces that spell something is scanned without errors, as that. -/
theorem scan (h : CutInto ms cs []) :
    ∃ scan, Scan.ofText? cs = some scan ∧ scan.errors = [] ∧ Spells ms scan.lexemes := by
  obtain ⟨ps, hps, hwritten⟩ := h
  simp only [List.append_nil, pieces_nil] at hps
  obtain ⟨ls, hspells, hlexemes, herrors⟩ := hwritten.foldl_add .empty (.inl rfl)
  refine ⟨.ofPieces ps, Scan.ofText?_eq_some_iff.mpr ⟨hps ▸ hwritten.readable, hps ▸ rfl⟩, ?_, ?_⟩
  · show (ps.foldl Scan.add .empty).errors.reverse = []
    rw [herrors]
    rfl
  · show Spells ms (ps.foldl Scan.add .empty).lexemes.reverse
    rw [hlexemes]
    simpa [Scan.empty] using hspells

end CutInto

/-! ## Emitted expressions -/

/-- Whether every word ends before this text. -/
def Delimits (rest : List Char) : Prop :=
  ∀ c ∈ rest.head?, c ∈ [' ', '(', ')', ',', ';']

theorem delimits_cons {c : Char} {cs : List Char} (hc : c ∈ [' ', '(', ')', ',', ';']) :
    Delimits (c :: cs) := by
  rintro _ ⟨⟩
  exact hc

theorem Delimits.endsBefore {rest : List Char} (h : Delimits rest) (t : Token) :
    t.EndsBefore rest := by
  have hall : ∀ c ∈ [' ', '(', ')', ',', ';'], continuesWord c = false ∧
      (c.isDigit = false ∧ c ≠ '.') ∧ c ∉ ['=', '/', '*'] := by decide +kernel
  cases t with
  | ident text => exact fun c hc ↦ (hall c (h c hc)).1
  | keyword word => exact fun c hc ↦ (hall c (h c hc)).1
  | number text => exact fun c hc ↦ (hall c (h c hc)).2.1
  | operator op => exact fun c hc ↦ (hall c (h c hc)).2.2
  | _ => trivial

namespace CutInto

variable {ms ns : List Mark} {cs ds rest : List Char}

theorem single {m : Mark} (hm : m.token.Readable) (hrest : Delimits rest) :
    CutInto [m] m.token.chars rest := by
  have h : CutInto [m] (m.token.chars ++ []) rest := cons hm (hrest.endsBefore m.token) nil
  rwa [List.append_nil] at h

/-- A space may stand before what need not be joined. -/
theorem space (h : CutInto ms cs rest) (hms : Unjoined ms) : CutInto ms (' ' :: cs) rest :=
  h.gap (by decide) hms

/-- A word may stand before what ends it. -/
theorem ident {text : String} (htext : (Token.ident text).Readable) (h : CutInto ms ds rest)
    (hends : Delimits (ds ++ rest)) :
    CutInto (.free (.ident text) :: ms) (text.toList ++ ds) rest :=
  cons htext (hends.endsBefore _) h

theorem keyword (word : Keyword) (h : CutInto ms ds rest) (hends : Delimits (ds ++ rest)) :
    CutInto (.free (.keyword word) :: ms) (word.text.toList ++ ds) rest :=
  cons trivial (hends.endsBefore _) h

theorem assign (op : AssignOp) (h : CutInto ms ds rest) :
    CutInto (.free (.assign op) :: ms) (op.text.toList ++ ds) rest :=
  cons trivial trivial h

theorem operator (op : BinaryOp) (h : CutInto ms ds rest) (hends : Delimits (ds ++ rest)) :
    CutInto (.free (.operator op) :: ms) (op.text.toList ++ ds) rest :=
  cons trivial (hends.endsBefore _) h

theorem str (value : String) (h : CutInto ms ds rest) :
    CutInto (.free (.str value) :: ms) (literal value ++ ds) rest :=
  cons trivial trivial h

theorem leftParen {joined : Bool} (h : CutInto ms ds rest) :
    CutInto (⟨.leftParen, joined⟩ :: ms) ('(' :: ds) rest :=
  cons trivial trivial h

theorem rightParen : CutInto [.free .rightParen] [')'] rest :=
  cons trivial trivial nil

theorem comma (h : CutInto ms ds rest) : CutInto (.free .comma :: ms) (',' :: ds) rest :=
  cons trivial trivial h

theorem semicolon : CutInto [.free .semicolon] [';'] rest :=
  cons trivial trivial nil

end CutInto

theorem IsWord.head_not_mem {cs : List Char} (h : IsWord cs) :
    ∃ c ds, cs = c :: ds ∧ c ∉ ['=', '/', '*'] := by
  cases h with
  | @intro c ds _ _ hstarts _ =>
      refine ⟨c, ds, rfl, ?_⟩
      have hall : ∀ d ∈ ['=', '/', '*'], startsWord d = false := by decide +kernel
      exact fun hc ↦ nomatch hstarts.symm.trans (hall c hc)

theorem IsNumeral.head_not_mem {cs : List Char} (h : IsNumeral cs) :
    ∃ c ds, cs = c :: ds ∧ c ∉ ['=', '/', '*'] := by
  have hall : ∀ d ∈ ['=', '/', '*'], d.isDigit = false := by decide
  cases h with
  | @whole c ds _ hdigit _ => exact ⟨c, ds, rfl, fun hc ↦ nomatch hdigit.symm.trans (hall c hc)⟩
  | @fraction c ds es _ hdigit _ _ =>
      exact ⟨c, ds ++ '.' :: es, rfl, fun hc ↦ nomatch hdigit.symm.trans (hall c hc)⟩

/-- An emitted expression goes on with no sign before it. -/
theorem Expr.head_emit {e : Expr} (h : ∀ m ∈ e.marks, m.token.Readable) :
    ∃ c cs, e.emit = c :: cs ∧ c ∉ ['=', '/', '*'] := by
  induction e with
  | number text => exact IsNumeral.head_not_mem (h _ List.mem_cons_self)
  | str value => exact ⟨'"', _, rfl, by decide⟩
  | name n => exact IsWord.head_not_mem (h _ List.mem_cons_self).1
  | neg operand _ => exact ⟨'-', _, rfl, by decide⟩
  | binary op lhs rhs hlhs _ =>
      rw [Expr.marks, List.forall_mem_append] at h
      obtain ⟨c, cs, hemit, hc⟩ := hlhs h.1
      exact ⟨c, _, by rw [Expr.emit, hemit]; rfl, hc⟩
  | call callee args _ =>
      obtain ⟨c, cs, htext, hc⟩ := IsWord.head_not_mem (h _ List.mem_cons_self).1
      exact ⟨c, _, by rw [Expr.emit, htext]; rfl, hc⟩
  | paren inner _ => exact ⟨'(', _, rfl, by decide⟩

/-- Arguments are written with commas and spaces between them. -/
theorem Expr.cutInto_emitArguments {args : List Expr} {rest : List Char}
    (hargs : ∀ arg ∈ args, ∀ rest, Delimits rest → CutInto arg.marks arg.emit rest)
    (hrest : Delimits rest) :
    CutInto (Expr.marksOfArguments args) (Expr.emitArguments args) rest := by
  induction args with
  | nil => exact .nil
  | cons e args ih =>
      rw [List.forall_mem_cons] at hargs
      cases args with
      | nil => exact hargs.1 rest hrest
      | cons d args =>
          obtain ⟨ms, hms⟩ := Expr.marksOfArguments_cons d args
          have hunjoined : Unjoined (Expr.marksOfArguments (d :: args)) :=
            hms ▸ d.unjoined_marks ms
          rw [Expr.marksOfArguments, Expr.emitArguments]
          exact (hargs.1 _ (delimits_cons (by decide))).append ((ih hargs.2).space hunjoined).comma
            unjoined_free

theorem Expr.cutInto_emit {e : Expr} {rest : List Char} (h : ∀ m ∈ e.marks, m.token.Readable)
    (hrest : Delimits rest) : CutInto e.marks e.emit rest := by
  induction e generalizing rest with
  | number text => exact .single (h _ List.mem_cons_self) hrest
  | str value => exact .single (h _ List.mem_cons_self) hrest
  | name n => exact .single (h _ List.mem_cons_self) hrest
  | neg operand ih =>
      rw [Expr.marks, List.forall_mem_cons] at h
      obtain ⟨c, cs, hemit, hc⟩ := Expr.head_emit h.2
      have hends : (Token.operator .sub).EndsBefore (operand.emit ++ rest) := by
        rw [hemit]
        rintro _ ⟨⟩
        exact hc
      exact CutInto.cons (m := .free (.operator .sub)) trivial hends (ih h.2 hrest)
  | binary op lhs rhs ihlhs ihrhs =>
      rw [Expr.marks, List.forall_mem_append, List.forall_mem_cons] at h
      have hrhs : CutInto rhs.marks (' ' :: rhs.emit) rest :=
        (ihrhs h.2.2 hrest).space (by simpa using rhs.unjoined_marks [])
      have hop : CutInto (.free (.operator op) :: rhs.marks) (op.text.toList ++ ' ' :: rhs.emit)
          rest :=
        hrhs.operator op (delimits_cons (by decide))
      have hlhs : CutInto lhs.marks lhs.emit
          ((' ' :: (op.text.toList ++ ' ' :: rhs.emit)) ++ rest) :=
        ihlhs h.1 (delimits_cons (by decide))
      rw [Expr.marks, Expr.emit, List.append_assoc]
      exact hlhs.append (hop.space unjoined_free) unjoined_free
  | call callee args ih =>
      rw [Expr.marks, List.forall_mem_cons, List.forall_mem_cons, List.forall_mem_append] at h
      have hargs : CutInto (Expr.marksOfArguments args) (Expr.emitArguments args) ([')'] ++ rest) :=
        Expr.cutInto_emitArguments
          (fun arg harg _ ↦ ih arg harg fun m hm ↦ h.2.2.1 m (Expr.mem_marksOfArguments harg hm))
          (delimits_cons (by decide))
      rw [Expr.marks, Expr.emit, List.append_assoc]
      exact .ident h.1 (hargs.append .rightParen unjoined_free).leftParen
        (delimits_cons (by decide))
  | paren inner ih =>
      rw [Expr.marks, List.forall_mem_cons, List.forall_mem_append] at h
      rw [Expr.marks, Expr.emit]
      exact ((ih h.2.1 (delimits_cons (by decide))).append .rightParen unjoined_free).leftParen

/-! ## Emitted modules -/

/-- Whether a statement only declares an outside name. -/
def Stmt.isAmbient : Stmt → Bool
  | .declares _ => true
  | _ => false

/-- Whether a statement is exported. -/
def Stmt.isExported : Stmt → Bool
  | .variable isExported _ _ _ => isExported
  | _ => false

/-- Whether a statement is emitted as it is read. -/
structure Stmt.Plain (s : Stmt) : Prop where
  normal : s.Normal
  import_eq_none : s.import? = none
  exported_eq_false : s.isExported = false
  readable : ∀ m ∈ s.marks, m.token.Readable

section Emission

variable {rest : List Char}

/-- A variable and its value, after its keyword. -/
theorem CutInto.initialValue {text : String} {value : Option Expr}
    (hname : (Token.ident text).Readable) (hvalue : ∀ m ∈ initialMarks value, m.token.Readable)
    (hrest : Delimits rest) :
    CutInto (.free (.ident text) :: initialMarks value)
      (text.toList ++ match value with
        | some e => " = ".toList ++ e.emit
        | none => []) rest := by
  cases value with
  | none => exact .ident hname .nil hrest
  | some e =>
      rw [initialMarks, List.forall_mem_cons] at hvalue
      have he : CutInto e.marks (' ' :: e.emit) rest :=
        (Expr.cutInto_emit hvalue.2 hrest).space (by simpa using e.unjoined_marks [])
      exact .ident hname ((he.assign .plain).space unjoined_free) (delimits_cons (by decide))

/-- A statement that is emitted is emitted as a line that spells it. -/
theorem Stmt.cutInto_emitLines {s : Stmt} (hs : s.Plain) (hambient : s.isAmbient = false) :
    ∃ line, s.emitLines .es2015 = [line] ∧ ∀ rest, CutInto s.closedMarks line rest := by
  obtain ⟨hnormal, himport, hexported, hreadable⟩ := hs
  cases s with
  | imports binding specifier offset => cases himport
  | declares name => cases hambient
  | «variable» isExported kind name value =>
      obtain rfl : isExported = false := hexported
      obtain ⟨word, hmarks, hword⟩ : ∃ word, kind.marks = [.free (.keyword word)] ∧
          kind.keyword .es2015 = word.text := by
        cases kind with
        | letWord => exact ⟨.letWord, rfl, rfl⟩
        | constWord => exact ⟨.constWord, rfl, rfl⟩
        | bare => exact nomatch (Stmt.normal_variable_iff.mp hnormal).2.2 rfl
      refine ⟨_, rfl, fun rest ↦ ?_⟩
      have hmarks' : (Stmt.variable false kind name value).marks
          = .free (.keyword word) :: .free (.ident name.text) :: initialMarks value := by
        rw [Stmt.marks, hmarks]
        rfl
      rw [hmarks', List.forall_mem_cons, List.forall_mem_cons] at hreadable
      have hvalue : CutInto (.free (.ident name.text) :: initialMarks value) _ ([';'] ++ rest) :=
        .initialValue hreadable.2.1 hreadable.2.2 (delimits_cons (by decide))
      have hline := ((hvalue.space unjoined_free).keyword word (delimits_cons (by decide))).append
        .semicolon unjoined_free
      rw [Stmt.closedMarks, hmarks', hword]
      cases value with
      | none => simpa using hline
      | some e => simpa using hline
  | assign target op value =>
      refine ⟨_, rfl, fun rest ↦ ?_⟩
      rw [Stmt.marks, List.forall_mem_cons, List.forall_mem_cons] at hreadable
      have hvalue : CutInto value.marks (' ' :: value.emit) ([';'] ++ rest) :=
        (Expr.cutInto_emit hreadable.2.2 (delimits_cons (by decide))).space
          (by simpa using value.unjoined_marks [])
      have hline := (CutInto.ident hreadable.1 ((hvalue.assign op).space unjoined_free)
        (delimits_cons (by decide))).append .semicolon unjoined_free
      simpa [Stmt.closedMarks, Stmt.marks] using hline
  | expr e =>
      refine ⟨_, rfl, fun rest ↦ ?_⟩
      exact (Expr.cutInto_emit hreadable (delimits_cons (by decide))).append .semicolon
        unjoined_free

/-- White space spells nothing. -/
theorem cutInto_blank {cs : List Char} (h : ∀ c ∈ cs, isBlank c = true) : CutInto [] cs rest := by
  induction cs with
  | nil => exact .nil
  | cons c cs ih =>
      rw [List.forall_mem_cons] at h
      exact (ih h.2).gap h.1 nofun

/-- A module is emitted as a text that spells the statements that are emitted. -/
theorem cutInto_emitChars {newLine : String} (hnewLine : newLine ∈ ["\n", "\r\n"])
    {ss : List Stmt} (hss : ∀ s ∈ ss, s.Plain) (rest : List Char) :
    CutInto ((ss.filter (!·.isAmbient)).flatMap Stmt.closedMarks) (emitChars .es2015 newLine ss)
      rest := by
  have hblank : ∀ line ∈ ["\n", "\r\n"], ∀ c ∈ line.toList, isBlank c = true := by decide
  have hunjoined : ∀ ss : List Stmt, Unjoined (ss.flatMap Stmt.closedMarks) := by
    rintro (_ | ⟨s, ss⟩)
    · exact nofun
    · rw [List.flatMap_cons, Stmt.closedMarks, List.append_assoc]
      exact s.unjoined_marks _
  induction ss with
  | nil => exact .nil
  | cons s ss ih =>
      rw [List.forall_mem_cons] at hss
      cases hambient : s.isAmbient with
      | true =>
          cases s with
          | declares name => exact ih hss.2
          | _ => cases hambient
      | false =>
          obtain ⟨line, hemit, hline⟩ := Stmt.cutInto_emitLines hss.1 hambient
          have hchars : emitChars .es2015 newLine (s :: ss)
              = line ++ (newLine.toList ++ emitChars .es2015 newLine ss) := by
            simp [emitChars, emitLines, hemit]
          rw [hchars, List.filter_cons_of_pos (by simp [hambient]), List.flatMap_cons]
          exact (hline _).append ((cutInto_blank (hblank newLine hnewLine)).append (ih hss.2)
            (hunjoined _)) (hunjoined _)

theorem readable_ident_of_letters {text : String} (hne : text.toList ≠ [])
    (hletters : ∀ c ∈ text.toList, isBlank c = false ∧ c.isDigit = false ∧ startsWord c = true ∧
      continuesWord c = true) (hkeyword : Keyword.ofText? text = none)
    (hreadable : (⟨.token (.ident text), text.toList⟩ : Piece).isUnreadable = false) :
    (Token.ident text).Readable :=
  ⟨.of_letters hne hletters, hkeyword, hreadable⟩

/-- The tokens that an import is emitted as. -/
def requireTokens (binding specifier : String) : List Token :=
  [.ident "var", .ident binding, .assign .plain, .ident "require", .leftParen, .str specifier,
    .rightParen, .semicolon]

theorem cutInto_require (target : LanguageTarget) {binding : Name} {specifier : String}
    {offset : Nat} (hbinding : (Token.ident binding.text).Readable) (rest : List Char) :
    ∃ line, (Stmt.imports binding specifier offset).emitLines target = [line] ∧
      CutInto ((requireTokens binding.text specifier).map .free) line rest := by
  have hvar : (Token.ident "var").Readable :=
    readable_ident_of_letters (by decide) (by decide +kernel) (by decide) (by decide)
  have hrequire : (Token.ident "require").Readable :=
    readable_ident_of_letters (by decide) (by decide +kernel) (by decide) (by decide)
  have hend : CutInto [.free .rightParen, .free .semicolon] [')', ';'] rest :=
    CutInto.rightParen.append .semicolon unjoined_free
  have hargument : CutInto (.free .leftParen :: _) _ rest := (hend.str specifier).leftParen
  have hcall := CutInto.ident hrequire hargument (delimits_cons (by decide))
  have hvalue := CutInto.ident hbinding
    (((hcall.space unjoined_free).assign .plain).space unjoined_free) (delimits_cons (by decide))
  have hline := CutInto.ident hvar (hvalue.space unjoined_free) (delimits_cons (by decide))
  exact ⟨_, rfl, by simpa [requireTokens, AssignOp.text] using hline⟩

end Emission

namespace SyntaxTree

/-- The tokens of the statements of a text are readable. -/
theorem readable_of_mem_statements {cs : List Char} {tree : SyntaxTree}
    (htree : ofText? cs = some tree) {s : Stmt} (hs : s ∈ tree.statements) :
    s.Normal ∧ ∀ m ∈ s.marks, m.token.Readable := by
  obtain ⟨scan, hscan, rfl⟩ := Option.map_eq_some_iff.mp htree
  obtain ⟨hnormal, taken, htaken, hspells⟩ := spelled_of_mem_statements hs
  refine ⟨hnormal, fun m hm ↦ ?_⟩
  have hmem : m.token ∈ taken.map Lexeme.token := hspells.map_token ▸ List.mem_map_of_mem hm
  obtain ⟨l, hl, htoken⟩ := List.mem_map.mp hmem
  exact htoken ▸ Scan.readable_of_ofText? hscan l (htaken.subset hl)

/-- A module without imports and exports that is emitted is read back without errors, up to places
and to declarations of outside names.  An import is emitted as a line that calls `require`. -/
theorem reads_emitted :
    (∀ cs tree newLine, ofText? cs = some tree → tree.imports = [] →
      (∀ s ∈ tree.statements, s.isExported = false) → newLine ∈ ["\n", "\r\n"] →
      ∃ tree', ofText? (emit .es2015 newLine tree.statements).toList = some tree' ∧
        tree'.errors = [] ∧ tree'.statements.map Stmt.unplaced
          = (tree.statements.filter (!·.isAmbient)).map Stmt.unplaced) ∧
    ∀ cs tree target binding specifier offset, ofText? cs = some tree →
      .imports binding specifier offset ∈ tree.statements →
      ∃ line scan, (Stmt.imports binding specifier offset).emitLines target = [line] ∧
        Scan.ofText? line = some scan ∧ scan.errors = [] ∧
        scan.lexemes.map Lexeme.token = requireTokens binding.text specifier := by
  constructor
  · intro cs tree newLine htree himports hexports hnewLine
    have hplain : ∀ s ∈ tree.statements, s.Plain := by
      intro s hs
      obtain ⟨hnormal, hreadable⟩ := readable_of_mem_statements htree hs
      exact ⟨hnormal, List.filterMap_eq_nil_iff.mp himports s hs, hexports s hs, hreadable⟩
    obtain ⟨scan, hscan, hlexical, hspells⟩ := (cutInto_emitChars hnewLine hplain []).scan
    obtain ⟨herrors, hstatements⟩ := ofScan_of_spells hlexical
      (fun s hs ↦ (hplain s (List.mem_of_mem_filter hs)).normal) hspells
    refine ⟨ofScan scan, ?_, herrors, hstatements⟩
    rw [emit, String.toList_ofList, ofText?, hscan, Option.map_some]
  · intro cs tree target binding specifier offset htree hs
    have hbinding : (Token.ident binding.text).Readable :=
      (readable_of_mem_statements htree hs).2 (.free (.ident binding.text)) (by simp [Stmt.marks])
    obtain ⟨line, hline, hcut⟩ := cutInto_require target hbinding []
    obtain ⟨scan, hscan, herrors, hspells⟩ := hcut.scan
    refine ⟨line, scan, hline, hscan, herrors, ?_⟩
    rw [hspells.map_token, List.map_map]
    exact List.map_id _

/-- A module with a declaration that is not emitted, and with tokens that could grow together. -/
def tightSigns : String :=
  "declare f\nlet s = 'a\"\\n' ; s += -(-f(1.,s) / 2)"

theorem reads_emitted_tightSigns :
    ∃ tree tree', ofText? tightSigns.toList = some tree ∧ tree.statements.length = 3 ∧
      ofText? (emit .es2015 "\r\n" tree.statements).toList = some tree' ∧ tree'.errors = [] ∧
      tree'.statements.map Stmt.unplaced
        = (tree.statements.filter (!·.isAmbient)).map Stmt.unplaced := by
  obtain ⟨tree, htree⟩ : ∃ tree, ofText? tightSigns.toList = some tree :=
    Option.isSome_iff_exists.mp (by decide +kernel)
  have hproperties : (ofText? tightSigns.toList).map (fun tree ↦ (tree.statements.length,
      tree.imports, tree.statements.map Stmt.isExported))
      = some (3, [], [false, false, false]) := by
    decide +kernel
  simp only [htree, Option.map_some, Option.some.injEq, Prod.mk.injEq] at hproperties
  obtain ⟨hlength, himports, hexports⟩ := hproperties
  have hexported : ∀ s ∈ tree.statements, s.isExported = false := by
    intro s hs
    have hmem : s.isExported ∈ [false, false, false] := hexports ▸ List.mem_map_of_mem hs
    simpa using hmem
  obtain ⟨tree', hread, herrors, hstatements⟩ :=
    reads_emitted.1 _ tree "\r\n" htree himports hexported (by decide)
  exact ⟨tree, tree', htree, hlength, hread, herrors, hstatements⟩

end SyntaxTree

end PipedCompiler.Language
