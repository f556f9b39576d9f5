import PipedCompiler.Proofs.Language.Cutting

/-!
# Reading scripts

How the language of the emitted texts is read: a text is cut from its beginning into elements, each
as long as possible.  Names and numbers are those of the language that is compiled.  Regular
expressions, templates, escapes by number and continued lines are left out: a text that contains
them is not read at all.
-/

namespace PipedCompiler.Script

open PipedCompiler.Text
open PipedCompiler.Language (startsWord continuesWord numberRest)

/-! ## Elements -/

/-- A token of a script. -/
inductive Token where
  | name (text : String)
  | number (text : String)
  /-- A string literal, with its escapes resolved. -/
  | str (value : String)
  | mark (text : String)
  deriving Repr, DecidableEq

/-- Whether an operand may end with the token, so that a slash behind it divides. -/
def Token.endsOperand : Token → Bool
  | .mark text => [")", "]", "\x7d"].contains text
  | _ => true

/-- An element of a script. -/
inductive Element where
  /-- White space, a line end or a comment. -/
  | gap
  | token (t : Token)
  deriving Repr, DecidableEq

/-- Editions of the language that differ in what may stand in a string literal. -/
inductive Edition where
  | es5
  | es2019
  deriving Repr, DecidableEq

/-- The characters that end a line. -/
def lineEnds : List Char := ['\n', '\r', '\u2028', '\u2029']

/-- The characters that cannot stand in a string literal. -/
def Edition.unquotable : Edition → List Char
  | .es5 => lineEnds
  | .es2019 => ['\n', '\r']

/-- The code points of white space and line ends. -/
def spaceRanges : CodeRanges := [
  (0x9, 0xd), (0x20, 0x20), (0xa0, 0xa0), (0x1680, 0x1680), (0x2000, 0x200a), (0x2028, 0x2029),
  (0x202f, 0x202f), (0x205f, 0x205f), (0x3000, 0x3000), (0xfeff, 0xfeff)]

/-- Whether a character is white space or ends a line. -/
def isSpace (c : Char) : Bool :=
  spaceRanges.contains c.toNat

/-- The tokens that are neither names nor literals. -/
def punctuators : List String := [
  "\x7b", "\x7d", "(", ")", "[", "]", ".", "...", ";", ",", "<", ">", "<=", ">=", "==", "!=",
  "===", "!==", "+", "-", "*", "/", "%", "**", "++", "--", "<<", ">>", ">>>", "&", "|", "^", "!",
  "~", "&&", "||", "??", "?", "?.", ":", "=", "+=", "-=", "*=", "/=", "%=", "**=", "<<=", ">>=",
  ">>>=", "&=", "|=", "^=", "&&=", "||=", "??=", "=>"]

/-- The character that a backslash and `c` denote in a string literal before `next`. -/
def escaped? (c : Char) (next : List Char) : Option Char :=
  match c with
  | 'b' => some '\x08'
  | 'f' => some '\x0c'
  | 'n' => some '\n'
  | 'r' => some '\r'
  | 't' => some '\t'
  | 'v' => some '\x0b'
  | '0' => if next.head?.any Char.isDigit then none else some '\x00'
  | c => if c.isDigit || ['x', 'u'].contains c || lineEnds.contains c then none else some c

/-- The value of a string literal behind its first quote, which `quote` has to end. -/
def stringValue? (ed : Edition) (quote : Char) : List Char → Option (List Char)
  | [] => none
  | c :: cs =>
    if c = quote then
      if cs.isEmpty then some [] else none
    else if c = '\\' then
      match cs with
      | [] => none
      | e :: cs => (escaped? e cs).bind fun d => (stringValue? ed quote cs).map (d :: ·)
    else if ed.unquotable.contains c then none
    else (stringValue? ed quote cs).map (c :: ·)

/-- Whether the end of a block comment is first reached at the end of a text. -/
def endsComment : List Char → Bool
  | [] => false
  | '*' :: '/' :: cs => cs.isEmpty
  | _ :: cs => endsComment cs

/-- Whether a text is a comment. -/
def isComment : List Char → Bool
  | '/' :: '/' :: cs => cs.all (!lineEnds.contains ·)
  | '/' :: '*' :: cs => endsComment cs
  | _ => false

/-- The element that a text is, behind an operand or in the place of one. -/
def element? (ed : Edition) (behindOperand : Bool) : List Char → Option Element
  | [] => none
  | c :: cs =>
    if c.isDigit then
      if (numberRest cs).2.isEmpty then some (.token (.number (String.ofList (c :: cs)))) else none
    else if startsWord c then
      if cs.all continuesWord then some (.token (.name (String.ofList (c :: cs)))) else none
    else if c = '"' || c = '\x27' then
      (stringValue? ed c cs).map fun value => .token (.str (String.ofList value))
    else if isSpace c then
      if cs.isEmpty then some .gap else none
    else if isComment (c :: cs) then some .gap
    else if c = '/' && !behindOperand then none
    else if punctuators.contains (String.ofList (c :: cs)) then
      some (.token (.mark (String.ofList (c :: cs))))
    else none

/-! ## Texts -/

/-- Whether `cs`, before `rest`, is an element, and no longer beginning of the text is one. -/
structure Begins (ed : Edition) (behindOperand : Bool) (cs rest : List Char) (x : Element) :
    Prop where
  element : element? ed behindOperand cs = some x
  longest : ∀ d more, d :: more <+: rest → element? ed behindOperand (cs ++ d :: more) = none

/-- Whether a text is read as these tokens. -/
inductive Reads (ed : Edition) : Bool → List Char → List Token → Prop
  | nil {b : Bool} : Reads ed b [] []
  | gap {b : Bool} {cs rest : List Char} {ts : List Token} (h : Begins ed b cs rest .gap)
      (hrest : Reads ed b rest ts) : Reads ed b (cs ++ rest) ts
  | token {b : Bool} {cs rest : List Char} {t : Token} {ts : List Token}
      (h : Begins ed b cs rest (.token t)) (hrest : Reads ed t.endsOperand rest ts) :
      Reads ed b (cs ++ rest) (t :: ts)

section Beginnings

variable {ed : Edition} {b : Bool} {cs ds rest more : List Char} {x y : Element}

theorem Begins.ne_nil (h : Begins ed b cs rest x) : cs ≠ [] := by
  rintro rfl
  exact nomatch h.element

/-- A text begins with one element only. -/
theorem Begins.unique (h : Begins ed b cs rest x) (h' : Begins ed b ds more y)
    (htext : cs ++ rest = ds ++ more) : cs = ds ∧ rest = more ∧ x = y := by
  -- of two beginnings that are elements neither goes on behind the other
  have hdone {cs rest ds more : List Char} {x y : Element} (h : Begins ed b cs rest x)
      (h' : Begins ed b (cs ++ ds) more y) (hrest : rest = ds ++ more) : ds = [] := by
    cases ds with
    | nil => rfl
    | cons d ds => exact nomatch (h.longest d ds ⟨more, hrest.symm⟩).symm.trans h'.element
  have heq : cs = ds := by
    rcases List.append_eq_append_iff.mp htext with ⟨as, rfl, hrest⟩ | ⟨as, rfl, hmore⟩
    · rw [hdone h h' hrest, List.append_nil]
    · rw [hdone h' h hmore, List.append_nil]
  subst heq
  exact ⟨rfl, List.append_cancel_left htext, Option.some.inj (h.element.symm.trans h'.element)⟩

theorem Reads.exists_element {ts : List Token} (h : Reads ed b cs ts) (hne : cs ≠ []) :
    ∃ ds rest x, ds ++ rest = cs ∧ element? ed b ds = some x := by
  cases h with
  | nil => exact absurd rfl hne
  | gap h _ => exact ⟨_, _, _, rfl, h.element⟩
  | token h _ => exact ⟨_, _, _, rfl, h.element⟩

theorem Begins.reads_gap_iff (h : Begins ed b cs rest .gap) {ts : List Token} :
    Reads ed b (cs ++ rest) ts ↔ Reads ed b rest ts := by
  refine ⟨fun hreads ↦ ?_, .gap h⟩
  generalize htext : cs ++ rest = text at hreads
  cases hreads with
  | nil => exact absurd (List.append_eq_nil_iff.mp htext).1 h.ne_nil
  | gap h' hrest =>
      obtain ⟨-, rfl, -⟩ := h.unique h' htext
      exact hrest
  | token h' hrest =>
      obtain ⟨-, -, hgap⟩ := h.unique h' htext
      cases hgap

theorem Begins.reads_token_iff {t t' : Token} (h : Begins ed b cs rest (.token t))
    {ts : List Token} :
    Reads ed b (cs ++ rest) (t' :: ts) ↔ t' = t ∧ Reads ed t.endsOperand rest ts := by
  constructor
  · intro hreads
    generalize htext : cs ++ rest = text at hreads
    cases hreads with
    | gap h' hrest =>
        obtain ⟨-, -, hgap⟩ := h.unique h' htext
        cases hgap
    | token h' hrest =>
        obtain ⟨-, rfl, ht⟩ := h.unique h' htext
        cases ht
        exact ⟨rfl, hrest⟩
  · rintro ⟨rfl, hrest⟩
    exact .token h hrest

end Beginnings

end PipedCompiler.Script
