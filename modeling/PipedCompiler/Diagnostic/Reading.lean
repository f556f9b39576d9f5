import PipedCompiler.Diagnostic.Basic
import PipedCompiler.Text.Blank
import PipedCompiler.Text.Numbers

/-!
# Reading diagnostics back

A line shows a diagnostic when it ends in severity, code and message.  What stands before them is
the place.  A line can be cut in several ways: the shortest file name wins, then a position over
none, and a place over none at all.
-/

namespace PipedCompiler.Diagnostic

open PipedCompiler.Text

/-- What follows `expected` at the start of `cs`. -/
def after? (expected cs : List Char) : Option (List Char) :=
  match expected, cs with
  | [], cs => some cs
  | e :: expected, c :: cs => if e = c then after? expected cs else none
  | _ :: _, [] => none

/-- Reads severity, code and message.  The code is a run of characters other than white space, up
to the colon that ends the run. -/
def readMatter? (cs : List Char) : Option Diagnostic := do
  let severity := cs.takeWhile (· ≠ ' ')
  let severity ← Severity.ofName? (String.ofList severity)
  let cs ← after? [' '] (cs.dropWhile (· ≠ ' '))
  let run := cs.takeWhile (!isBlank ·)
  let message ← after? [' '] (cs.dropWhile (!isBlank ·))
  match run.reverse with
  | ':' :: c :: code =>
    some (plain severity (String.ofList (c :: code).reverse) (String.ofList message))
  | _ => none

/-- The number that digits of any script stand for, if they are ASCII digits and it is not too
large. -/
def number? (digits : List Char) : Option UInt32 :=
  (Decimal.natBelow? (Nat.pow 2 32) digits).map (·.toUInt32)

/-- Whether the character can stand in a position.  Positions are written with the digits of
Unicode 16, which has those of every script but Tolong Siki. -/
def isPositionDigit (c : Char) : Bool :=
  isDecimalDigit c && !(0x11de0 ≤ c.toNat && c.toNat ≤ 0x11de9)

theorem isPositionDigit_of_isDigit {c : Char} (h : c.isDigit = true) :
    isPositionDigit c = true := by
  have hc : c.toNat < 0x80 := by
    simp only [Char.isDigit, Bool.and_eq_true, decide_eq_true_eq, UInt32.le_iff_toNat_le] at h
    change (c.val.toNat < 0x80)
    have h57 : (57 : UInt32).toNat = 57 := rfl
    grind
  have : ¬ 0x11de0 ≤ c.toNat := by omega
  simp [isPositionDigit, isDecimalDigit, hc, h, this]

/-- Reads a position in parentheses, which may have numbers that stand for nothing. -/
def readPosition? (cs : List Char) : Option (Option UInt32 × Option UInt32 × List Char) := do
  let cs ← after? ['('] cs
  let line := cs.takeWhile isPositionDigit
  let cs ← after? [','] (cs.dropWhile isPositionDigit)
  let column := cs.takeWhile isPositionDigit
  let cs ← after? [')'] (cs.dropWhile isPositionDigit)
  if line.isEmpty || column.isEmpty then none
  else some (number? line, number? column, cs)

/-- The diagnostic with the file whose name is `start` in reverse. -/
def inFileReversed (start : List Char) (d : Diagnostic) : Diagnostic :=
  d.inFile (String.ofList start.reverse)

/-- Reads what follows a file name, given in reverse: a position if there is one, and the matter. -/
def readAfterFile? (start cs : List Char) : Option Diagnostic :=
  let placed? := do
    let (line, column, cs) ← readPosition? cs
    let d ← readMatter? (← after? [':', ' '] cs)
    some (inFileReversed start { d with line, column })
  let bare? := do
    let d ← readMatter? (← after? [':', ' '] cs)
    some (inFileReversed start d)
  placed? <|> bare?

/-- Reads a diagnostic whose file name starts with `start`, given in reverse, and goes on. -/
def readInFile? (start : List Char) : List Char → Option Diagnostic
  | [] => none
  | c :: cs =>
    match readAfterFile? (c :: start) cs with
    | some d => some d
    | none => readInFile? (c :: start) cs

/-- The diagnostic shown by the characters of a line without white space at the end. -/
def readTrimmed? (cs : List Char) : Option Diagnostic :=
  if cs.contains '\n' then none else readInFile? [] cs <|> readMatter? cs

/-- The diagnostic that a line shows. -/
def ofLine? (line : String) : Option Diagnostic :=
  readTrimmed? (trimRight line.toList)

end PipedCompiler.Diagnostic
