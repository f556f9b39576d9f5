/-!
# Decimal numbers

Writing and reading numbers in ASCII decimal digits.
-/

namespace PipedCompiler.Text.Decimal

/-- The digits of a number, without leading zeros. -/
def digits (n : Nat) : List Char :=
  Nat.toDigits 10 n

/-- The value of a digit. -/
def digitValue (c : Char) : Nat :=
  c.toNat - '0'.toNat

/-- The value of digits in a base. -/
def valueIn (base : Nat) (value : Char → Nat) (cs : List Char) : Nat :=
  cs.foldl (fun n c => base * n + value c) 0

/-- The number that a nonempty run of digits stands for. -/
def nat? (cs : List Char) : Option Nat :=
  if cs ≠ [] && cs.all Char.isDigit then some (valueIn 10 digitValue cs) else none

/-- The number with an optional plus sign, below a limit. -/
def natBelow? (limit : Nat) (cs : List Char) : Option Nat :=
  let body := match cs with
    | '+' :: rest => rest
    | _ => cs
  (nat? body).filter (· < limit)

/-- The integer with an optional minus sign, of at most 63 bits and a sign. -/
def int64? (cs : List Char) : Option Int :=
  match cs with
  | '-' :: rest => ((nat? rest).filter (· ≤ Nat.pow 2 63)).map fun n => -(n : Int)
  | _ => ((nat? cs).filter (· < Nat.pow 2 63)).map fun n => (n : Int)

end PipedCompiler.Text.Decimal
