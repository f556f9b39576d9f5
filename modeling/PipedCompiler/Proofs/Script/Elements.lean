import Mathlib.Data.List.Chain
import PipedCompiler.Proofs.Script.Reading

/-!
# Elements of emitted texts

Where the names, the numbers, the string literals and the marks of the emitted texts end, when these
are read as scripts.
-/

namespace PipedCompiler.Script

open PipedCompiler.Text
open PipedCompiler.Language (startsWord continuesWord numberRest numberRest_whole
  numberRest_fraction escapeChar literal IsWord IsNumeral)

variable {ed : Edition} {b : Bool} {cs rest : List Char}

theorem mem_head?_of_cons_isPrefix {d : Char} {more : List Char} (h : d :: more <+: rest) :
    d ∈ rest.head? := by
  obtain ⟨later, rfl⟩ := h
  rfl

/-! ## Names, numbers and spaces -/

theorem begins_name (h : IsWord cs) (hrest : ∀ d ∈ rest.head?, continuesWord d = false) :
    Begins ed b cs rest (.token (.name (String.ofList cs))) := by
  cases h with
  | @intro c cs _ hdigit hstarts hcontinues =>
      constructor
      · have hall : cs.all continuesWord = true := List.all_eq_true.mpr hcontinues
        simp [element?, hdigit, hstarts, hall]
      · intro d more hmore
        have hd := hrest d (mem_head?_of_cons_isPrefix hmore)
        simp [element?, hdigit, hstarts, hd]

/-- A number is one of the language that is compiled, and goes on as long as one of these does. -/
theorem begins_number (h : IsNumeral cs) (hrest : ∀ d ∈ rest.head?, d.isDigit = false ∧ d ≠ '.') :
    Begins ed b cs rest (.token (.number (String.ofList cs))) := by
  obtain ⟨c, ds, rfl, hdigit, hwhole⟩ : ∃ c ds, cs = c :: ds ∧ c.isDigit = true ∧
      ∀ more : List Char, (∀ d ∈ more.head?, d.isDigit = false ∧ d ≠ '.') →
        numberRest (ds ++ more) = (ds, more) := by
    cases h with
    | @whole c ds _ hdigit hds => exact ⟨c, ds, rfl, hdigit, fun _ ↦ numberRest_whole hds⟩
    | @fraction c ds es _ hdigit hds hes =>
        exact ⟨c, ds ++ '.' :: es, rfl, hdigit,
          fun more hmore ↦ numberRest_fraction hds hes fun d hd ↦ (hmore d hd).1⟩
  constructor
  · have hnone := hwhole [] nofun
    rw [List.append_nil] at hnone
    simp [element?, hdigit, hnone]
  · intro d more hmore
    have hd := hrest d (mem_head?_of_cons_isPrefix hmore)
    have hsome := hwhole (d :: more) (by rintro _ ⟨⟩; exact hd)
    simp [element?, hdigit, hsome]

theorem begins_space : Begins ed b [' '] rest .gap := by
  have hdigit : ' '.isDigit = false := by decide
  have hstarts : startsWord ' ' = false := by decide +kernel
  have hspace : isSpace ' ' = true := by decide
  constructor
  · simp [element?, hdigit, hstarts, hspace]
  · intro d more _
    simp [element?, hdigit, hstarts, hspace]

/-! ## String literals -/

/-- Whether a character can be written in a literal before other characters: a null character before
no decimal digit, and what ends a literal by an escape. -/
structure Writable (ed : Edition) (c : Char) (next : List Char) : Prop where
  null : c = '\x00' → ∀ d ∈ next.head?, d.isDigit = false
  separator : c ∈ ed.unquotable → c ∈ ['\n', '\r']

/-- Whether a string can be written as a literal without escapes by number: no decimal digit follows
a null character, and it has no separators of lines or paragraphs where these end a literal. -/
structure Quotable (ed : Edition) (value : List Char) : Prop where
  null : value.IsChain fun c d ↦ c = '\x00' → d.isDigit = false
  separators : ∀ c ∈ value, c ∈ ed.unquotable → c ∈ ['\n', '\r']

theorem quotable_nil : Quotable ed [] :=
  ⟨.nil, nofun⟩

theorem quotable_cons {c : Char} {value : List Char} :
    Quotable ed (c :: value) ↔ Writable ed c value ∧ Quotable ed value := by
  constructor
  · rintro ⟨hnull, hseparators⟩
    rw [List.isChain_cons] at hnull
    rw [List.forall_mem_cons] at hseparators
    exact ⟨⟨fun hc d hd ↦ hnull.1 d hd hc, hseparators.1⟩, hnull.2, hseparators.2⟩
  · rintro ⟨hwritable, hvalue⟩
    exact ⟨List.isChain_cons.mpr ⟨fun d hd hc ↦ hwritable.null hc d hd, hvalue.null⟩,
      List.forall_mem_cons.mpr ⟨hwritable.separator, hvalue.separators⟩⟩

section Characters

variable {c e : Char} {value : List Char}

theorem stringValue?_escape :
    stringValue? ed '"' ('\\' :: e :: rest) =
      (escaped? e rest).bind fun d ↦ (stringValue? ed '"' rest).map (d :: ·) := by
  rw [stringValue?.eq_def]
  simp

theorem stringValue?_quote :
    stringValue? ed '"' ('"' :: rest) = if rest.isEmpty then some [] else none := by
  rw [stringValue?.eq_def]
  simp

theorem stringValue?_plain (hquote : c ≠ '"') (hbackslash : c ≠ '\\') :
    stringValue? ed '"' (c :: rest) =
      if c ∈ ed.unquotable then none else (stringValue? ed '"' rest).map (c :: ·) := by
  rw [stringValue?.eq_def]
  simp [hquote, hbackslash]

/-- What a character is written as is read as that character, just if it can be written there. -/
theorem stringValue?_escapeChar :
    stringValue? ed '"' (escapeChar c ++ rest) = some value ↔
      Writable ed c rest ∧ ∃ more, stringValue? ed '"' rest = some more ∧ c :: more = value := by
  have hescape {c e : Char} (hescaped : escaped? e rest = some c) (hwritable : Writable ed c rest) :
      stringValue? ed '"' ('\\' :: e :: rest) = some value ↔
        Writable ed c rest ∧ ∃ more, stringValue? ed '"' rest = some more ∧ c :: more = value := by
    rw [stringValue?_escape, hescaped, Option.bind_some, Option.map_eq_some_iff]
    exact (and_iff_right hwritable).symm
  have hplain {c : Char} (hnull : c ≠ '\x00') (hline : c ∈ ed.unquotable → c ∈ ['\n', '\r']) :
      Writable ed c rest :=
    ⟨fun hc ↦ absurd hc hnull, hline⟩
  unfold escapeChar
  split
  · exact hescape rfl (hplain (by decide) (by cases ed <;> decide))
  · exact hescape rfl (hplain (by decide) (by cases ed <;> decide))
  · exact hescape rfl (hplain (by decide) fun _ ↦ by decide)
  · exact hescape rfl (hplain (by decide) fun _ ↦ by decide)
  · exact hescape rfl (hplain (by decide) (by cases ed <;> decide))
  · cases hdigit : rest.head?.any Char.isDigit with
    | true =>
        obtain ⟨d, hd, hd'⟩ := (Option.any_eq_true _ _).mp hdigit
        rw [List.cons_append, List.singleton_append, stringValue?_escape, escaped?, hdigit]
        exact ⟨nofun, fun h ↦ nomatch hd'.symm.trans (h.1.null rfl d hd)⟩
    | false =>
        have hescaped : escaped? '0' rest = some '\x00' := if_neg (Bool.eq_false_iff.mp hdigit)
        exact hescape hescaped ⟨fun _ d hd ↦ (Option.any_eq_false _ _).mp hdigit d hd,
          by cases ed <;> decide⟩
  · next hquote hbackslash hfeed hreturn _ hnull =>
    have hline : c ∉ ['\n', '\r'] := by simpa using ⟨hfeed, hreturn⟩
    rw [List.singleton_append, stringValue?_plain hquote hbackslash]
    by_cases hc : c ∈ ed.unquotable
    · rw [if_pos hc]
      exact ⟨nofun, fun h ↦ absurd (h.1.separator hc) hline⟩
    · rw [if_neg hc, Option.map_eq_some_iff]
      exact (and_iff_right (hplain hnull fun h ↦ absurd h hc)).symm

theorem escapeChar_eq (c : Char) :
    escapeChar c = [c] ∨ c.isDigit = false ∧ ∃ e, escapeChar c = ['\\', e] := by
  unfold escapeChar
  split
  case h_7 => exact .inl rfl
  all_goals exact .inr ⟨by decide, _, rfl⟩

/-- The quote that ends a string literal does not stand in what a character is written as. -/
theorem stringValue?_of_escapeChar_eq {more : List Char}
    (h : escapeChar c = cs ++ more) : stringValue? ed '"' cs = none := by
  cases more with
  | nil =>
      rw [List.append_nil] at h
      by_contra hsome
      obtain ⟨value, hvalue⟩ := Option.ne_none_iff_exists'.mp hsome
      rw [← h, ← (escapeChar c).append_nil] at hvalue
      obtain ⟨-, more, hmore, -⟩ := stringValue?_escapeChar.mp hvalue
      cases hmore
  | cons d more =>
      -- a proper beginning is empty or a single backslash
      rcases cs with _ | ⟨c', _ | ⟨c'', cs⟩⟩
      · rfl
      · rcases escapeChar_eq c with hplain | ⟨-, e, hescape⟩
        · cases hplain.symm.trans h
        · cases hescape.symm.trans h
          rw [stringValue?.eq_def]
          rfl
      · rcases escapeChar_eq c with hplain | ⟨-, e, hescape⟩
        · cases hplain.symm.trans h
        · have hlength := congrArg List.length (hescape.symm.trans h)
          simp at hlength

/-- What is read as a string literal at the beginning of a text that one is written at is that. -/
theorem eq_of_stringValue?_eq_some {read later : List Char}
    (hread : stringValue? ed '"' cs = some read)
    (htext : cs ++ later = value.flatMap escapeChar ++ '"' :: rest) :
    cs = value.flatMap escapeChar ++ ['"'] := by
  induction value generalizing cs read with
  | nil =>
      cases cs with
      | nil => cases hread
      | cons c cs =>
          obtain ⟨rfl, -⟩ := List.cons.inj htext
          rw [stringValue?_quote] at hread
          split at hread
          · next hempty => rw [List.isEmpty_iff.mp hempty]; rfl
          · cases hread
  | cons c value ih =>
      rw [List.flatMap_cons, List.append_assoc] at htext
      rcases List.append_eq_append_iff.mp htext with ⟨more, hchar, -⟩ | ⟨more, rfl, hmore⟩
      · exact nomatch (stringValue?_of_escapeChar_eq hchar).symm.trans hread
      · obtain ⟨-, read, hread, -⟩ := stringValue?_escapeChar.mp hread
        rw [ih hread hmore.symm, List.flatMap_cons, List.append_assoc]

/-- What is written of a string starts with a digit if the string does. -/
theorem writable_written :
    Writable ed c (value.flatMap escapeChar ++ ['"']) ↔ Writable ed c value := by
  have hhead : (∀ d ∈ (value.flatMap escapeChar ++ ['"']).head?, d.isDigit = false) ↔
      ∀ d ∈ value.head?, d.isDigit = false := by
    cases value with
    | nil =>
        refine ⟨nofun, ?_⟩
        rintro - _ ⟨⟩
        decide
    | cons d value =>
        rcases escapeChar_eq d with hplain | ⟨hdigit, e, hescape⟩
        · simp [hplain]
        · simp [hescape, hdigit]
  exact ⟨fun h ↦ ⟨fun hc ↦ hhead.mp (h.null hc), h.separator⟩,
    fun h ↦ ⟨fun hc ↦ hhead.mpr (h.null hc), h.separator⟩⟩

/-- A literal is read as the string that is written, just if that can be written. -/
theorem stringValue?_literal {read : List Char} :
    stringValue? ed '"' (value.flatMap escapeChar ++ ['"']) = some read ↔
      Quotable ed value ∧ value = read := by
  induction value generalizing read with
  | nil => simpa [stringValue?] using fun _ ↦ quotable_nil
  | cons c value ih =>
      rw [List.flatMap_cons, List.append_assoc, stringValue?_escapeChar, writable_written,
        quotable_cons, and_assoc]
      refine and_congr_right fun _ ↦ ⟨?_, ?_⟩
      · rintro ⟨more, hmore, rfl⟩
        obtain ⟨hquotable, rfl⟩ := ih.mp hmore
        exact ⟨hquotable, rfl⟩
      · rintro ⟨hquotable, rfl⟩
        exact ⟨value, ih.mpr ⟨hquotable, rfl⟩, rfl⟩

end Characters

theorem element?_quote :
    element? ed b ('"' :: cs) =
      (stringValue? ed '"' cs).map fun value ↦ .token (.str (String.ofList value)) := by
  have hdigit : '"'.isDigit = false := by decide
  have hstarts : startsWord '"' = false := by decide +kernel
  simp [element?, hdigit, hstarts]

theorem begins_literal {value : String} (h : Quotable ed value.toList) :
    Begins ed b (literal value) rest (.token (.str value)) := by
  constructor
  · have hread := stringValue?_literal.mpr ⟨h, rfl⟩
    rw [literal, List.cons_append, element?_quote, hread, Option.map_some, String.ofList_toList]
  · intro d more hmore
    by_contra hsome
    obtain ⟨x, hx⟩ := Option.ne_none_iff_exists'.mp hsome
    rw [literal, List.cons_append, List.cons_append, element?_quote] at hx
    obtain ⟨read, hread, -⟩ := Option.map_eq_some_iff.mp hx
    have htext : value.toList.flatMap escapeChar ++ ['"'] ++ d :: more ++ [] =
        value.toList.flatMap escapeChar ++ '"' :: d :: more := by simp
    have heq := eq_of_stringValue?_eq_some hread htext
    simp at heq

theorem quotable_of_reads {value : String} {ts : List Token}
    (h : Reads ed b (literal value ++ rest) ts) : Quotable ed value.toList := by
  obtain ⟨cs, later, x, htext, hx⟩ := h.exists_element (by simp [literal])
  cases cs with
  | nil => cases hx
  | cons c cs =>
      rw [literal, List.cons_append, List.cons_append, List.cons_append, List.append_assoc] at htext
      obtain ⟨rfl, hmore⟩ := List.cons.inj htext
      rw [element?_quote] at hx
      obtain ⟨read, hread, -⟩ := Option.map_eq_some_iff.mp hx
      rw [eq_of_stringValue?_eq_some hread hmore] at hread
      exact (stringValue?_literal.mp hread).1

/-! ## Marks -/

/-- What marks and comments begin with. -/
def openings : List String :=
  ["//", "/*"] ++ punctuators

/-- The characters with which a mark goes on as something else. -/
def followers (m : String) : List Char :=
  openings.filterMap fun p ↦
    if m.toList.isPrefixOf p.toList then p.toList[m.toList.length]? else none

theorem mem_followers {m p : String} {d : Char} (hp : p ∈ openings)
    (h : m.toList ++ [d] <+: p.toList) : d ∈ followers m := by
  obtain ⟨more, hmore⟩ := h
  refine List.mem_filterMap.mpr ⟨p, hp, ?_⟩
  rw [← hmore, List.append_assoc, if_pos (by simp)]
  simp

theorem exists_opening_of_isComment (h : isComment cs = true) :
    ∃ p ∈ ["//", "/*"], p.toList <+: cs := by
  unfold isComment at h
  split at h
  · next cs => exact ⟨"//", by simp, cs, rfl⟩
  · next cs => exact ⟨"/*", by simp, cs, rfl⟩
  · cases h

/-- The marks of emitted expressions, and what two signs make. -/
def emittedMarks : List String :=
  ["(", ")", ",", "+", "-", "*", "/", "--"]

theorem element?_of_emittedMark {m : String} (hm : m ∈ emittedMarks) (more : List Char) :
    element? ed b (m.toList ++ more) =
      if isComment (m.toList ++ more) then some .gap
      else if m.toList.head? = some '/' ∧ b = false then none
      else if String.ofList (m.toList ++ more) ∈ punctuators then
        some (.token (.mark (String.ofList (m.toList ++ more))))
      else none := by
  have hmarks : ∀ m ∈ emittedMarks, m.toList ≠ [] ∧
      ∀ c ∈ m.toList, c ∈ ['(', ')', ',', '+', '-', '*', '/'] := by decide
  have hchars : ∀ c ∈ ['(', ')', ',', '+', '-', '*', '/'], c.isDigit = false ∧
      startsWord c = false ∧ c ≠ '"' ∧ c ≠ '\x27' ∧ isSpace c = false := by decide +kernel
  obtain ⟨hne, hmem⟩ := hmarks m hm
  obtain ⟨c, cs, htext⟩ := List.exists_cons_of_ne_nil hne
  obtain ⟨hdigit, hstarts, hquote, hapostrophe, hspace⟩ := hchars c (hmem c (by simp [htext]))
  simp [htext, element?, hdigit, hstarts, hquote, hapostrophe, hspace]

theorem begins_mark {m : String} (hm : m ∈ emittedMarks) (hslash : m ≠ "/" ∨ b = true)
    (hrest : ∀ d ∈ rest.head?, d ∉ followers m) :
    Begins ed b m.toList rest (.token (.mark m)) := by
  have hmarks : ∀ m ∈ emittedMarks, m ∈ punctuators ∧ isComment m.toList = false ∧
      (m.toList.head? = some '/' → m = "/") ∧ ∀ p ∈ ["//", "/*"], ¬ p.toList <+: m.toList := by
    decide
  obtain ⟨hpunctuator, hcomment, hhead, hopening⟩ := hmarks m hm
  constructor
  · rw [← m.toList.append_nil, element?_of_emittedMark hm, List.append_nil, String.ofList_toList,
      if_neg (by simp [hcomment]), if_neg, if_pos hpunctuator]
    rintro ⟨hm, rfl⟩
    rcases hslash with hslash | hfalse
    · exact hslash (hhead hm)
    · cases hfalse
  · intro d more hmore
    have hd := hrest d (mem_head?_of_cons_isPrefix hmore)
    have hmark : m.toList ++ [d] <+: m.toList ++ d :: more := ⟨more, by simp⟩
    have hcomment : ¬ isComment (m.toList ++ d :: more) = true := by
      intro h
      obtain ⟨p, hp, hbegins⟩ := exists_opening_of_isComment h
      rcases Nat.lt_or_ge m.toList.length p.toList.length with hlt | hle
      · rw [Nat.lt_iff_add_one_le, ← List.length_singleton (a := d), ← List.length_append] at hlt
        exact hd (mem_followers (List.mem_append_left _ hp)
          (List.prefix_of_prefix_length_le hmark hbegins hlt))
      · exact hopening p hp
          (List.prefix_of_prefix_length_le hbegins (List.prefix_append _ _) hle)
    have hpunctuator : String.ofList (m.toList ++ d :: more) ∉ punctuators := fun h ↦
      hd (mem_followers (List.mem_append_right _ h)
        (by rw [String.toList_ofList]; exact hmark))
    rw [element?_of_emittedMark hm, if_neg hcomment, if_neg hpunctuator, ite_self]

end PipedCompiler.Script
