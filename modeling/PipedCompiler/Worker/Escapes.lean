import PipedCompiler.Text.Utf8

/-!
# Escapes of the shell's printing commands

Bytes written with backslashes, and formats whose directives stand for arguments.
-/

namespace PipedCompiler.Worker

open PipedCompiler.Text

/-- The byte of a one-letter escape. -/
def escapeByte? (c : Char) : Option UInt8 :=
  match c with
  | 'a' => some 0x07
  | 'b' => some 0x08
  | 'f' => some 0x0c
  | 'n' => some 0x0a
  | 'r' => some 0x0d
  | 't' => some 0x09
  | 'v' => some 0x0b
  | '\\' => some 0x5c
  | _ => none

/-- Whether the character is a digit of base eight. -/
def isOctal (c : Char) : Bool :=
  '0' ≤ c && c ≤ '7'

/-- A byte by its number in base eight. -/
def octalByte (digits : List Char) : UInt8 :=
  (digits.foldl (fun n c => 8 * n + (c.toNat - '0'.toNat)) 0).toUInt8

/-- At most `count` digits of base eight at the start, and the rest. -/
def octalDigits : (count : Nat) → List Char → List Char × List Char
  | count + 1, c :: cs =>
    if isOctal c then
      let (digits, rest) := octalDigits count cs
      (c :: digits, rest)
    else ([], c :: cs)
  | _, cs => ([], cs)

theorem length_octalDigits_le (count : Nat) (cs : List Char) :
    (octalDigits count cs).2.length ≤ cs.length := by
  induction count generalizing cs with
  | zero => simp [octalDigits]
  | succ count ih =>
    cases cs with
    | nil => simp [octalDigits]
    | cons c cs =>
      simp only [octalDigits]
      split
      · exact Nat.le_succ_of_le (ih cs)
      · exact Nat.le_refl _

/-- What is echoed of some characters.  The digits of a byte follow a zero. -/
def echoed : List Char → Bytes
  | [] => []
  | '\\' :: '0' :: cs =>
    have := length_octalDigits_le 3 cs
    octalByte (octalDigits 3 cs).1 :: echoed (octalDigits 3 cs).2
  | '\\' :: c :: cs =>
    match escapeByte? c with
    | some b => b :: echoed cs
    | none => 0x5c :: echoed (c :: cs)
  | c :: cs => Utf8.encode [c] ++ echoed cs
termination_by cs => cs.length
decreasing_by all_goals simp only [List.length_cons] at *; omega

/-- What a format makes of some arguments, and the arguments that it leaves. -/
def printed : List Char → List String → Bytes × List String
  | [], args => ([], args)
  | '\\' :: c :: cs, args =>
    if isOctal c then
      have := length_octalDigits_le 3 (c :: cs)
      let (more, args) := printed (octalDigits 3 (c :: cs)).2 args
      (octalByte (octalDigits 3 (c :: cs)).1 :: more, args)
    else
      match escapeByte? c with
      | some b =>
        let (more, args) := printed cs args
        (b :: more, args)
      | none =>
        let (more, args) := printed (c :: cs) args
        (0x5c :: more, args)
  | '%' :: c :: cs, args =>
    if c = '%' then
      let (more, args) := printed cs args
      (0x25 :: more, args)
    else
      let arg := args.headD ""
      let bs := if c = 'b' then echoed arg.toList else bytesOf arg
      let (more, args) := printed cs args.tail
      (bs ++ more, args)
  | c :: cs, args =>
    let (more, args) := printed cs args
    (Utf8.encode [c] ++ more, args)
termination_by cs => cs.length
decreasing_by all_goals simp only [List.length_cons] at *; omega

/-- What a format makes of arguments when it is used again for those that are left, at most `bound`
times. -/
def printedAgain : (bound : Nat) → List Char → List String → Bytes
  | 0, _, _ => []
  | bound + 1, format, args =>
    let (bs, left) := printed format args
    if left.isEmpty || left.length = args.length then bs
    else bs ++ printedAgain bound format left

end PipedCompiler.Worker
