import PipedCompiler.Text.Decimal
import PipedCompiler.Toml.Value

/-!
# TOML scalars

Numbers, truth values, dates and times: the values that are written without quotes or brackets.
-/

namespace PipedCompiler.Toml

open PipedCompiler.Text

/-- The value of a digit of base sixteen. -/
def hexValue? (c : Char) : Option Nat :=
  if c.isDigit then some (c.toNat - '0'.toNat)
  else if 'a' ≤ c && c ≤ 'f' then some (c.toNat - 'a'.toNat + 10)
  else if 'A' ≤ c && c ≤ 'F' then some (c.toNat - 'A'.toNat + 10)
  else none

/-- Whether the character is a digit of a base. -/
def isDigitOf (base : Nat) (c : Char) : Bool :=
  match hexValue? c with
  | some n => n < base
  | none => false

/-- Whether no two digits are further apart than one underscore, given whether the last character
was a digit. -/
def isGrouped (base : Nat) : (afterDigit : Bool) → List Char → Bool
  | afterDigit, [] => afterDigit
  | afterDigit, c :: cs =>
    if isDigitOf base c then isGrouped base true cs
    else c = '_' && afterDigit && isGrouped base false cs

/-- The digits of a run in which underscores may stand between digits. -/
def digits? (base : Nat) (cs : List Char) : Option (List Char) :=
  if isGrouped base false cs then some (cs.filter (· ≠ '_')) else none

/-- The number that digits stand for. -/
def numberOf (base : Nat) (cs : List Char) : Nat :=
  Decimal.valueIn base (fun c => (hexValue? c).getD 0) cs

/-- Decimal digits without a needless zero in front. -/
def wholeDigits? (cs : List Char) : Option (List Char) := do
  let ds ← digits? 10 cs
  match ds with
  | '0' :: _ :: _ => none
  | _ => some ds

/-- A number without its sign: whether it is negative, and the rest. -/
def splitSign (cs : List Char) : Bool × List Char :=
  match cs with
  | '-' :: cs => (true, cs)
  | '+' :: cs => (false, cs)
  | cs => (false, cs)

/-- An integer. -/
def integer? (cs : List Char) : Option Int :=
  match cs with
  | '0' :: 'x' :: cs => (digits? 16 cs).map fun ds => (numberOf 16 ds : Int)
  | '0' :: 'o' :: cs => (digits? 8 cs).map fun ds => (numberOf 8 ds : Int)
  | '0' :: 'b' :: cs => (digits? 2 cs).map fun ds => (numberOf 2 ds : Int)
  | cs =>
    let (negative, cs) := splitSign cs
    (wholeDigits? cs).map fun ds =>
      let n : Int := numberOf 10 ds
      if negative then -n else n

/-- An exponent, behind its letter. -/
def exponent? (cs : List Char) : Option Int :=
  let (negative, cs) := splitSign cs
  (digits? 10 cs).map fun ds =>
    let n : Int := numberOf 10 ds
    if negative then -n else n

/-- Whether `mantissa * 10 ^ exponent` is nearer to a finite number of double precision than to what
would follow the last one. -/
def isFinite (mantissa : List Char) (exponent : Int) : Bool :=
  let significant := mantissa.dropWhile (· = '0')
  let magnitude := significant.length + exponent
  if significant = [] || magnitude < 300 then true
  else if magnitude > 400 then false
  else
    let n := numberOf 10 significant
    let bound := Nat.pow 2 1024 - Nat.pow 2 970
    let scale := Nat.pow 10 exponent.natAbs
    if exponent < 0 then n < bound * scale else n * scale < bound

/-- A number with a fraction or an exponent: whether it is finite. -/
def finiteFloat? (cs : List Char) : Option Bool := do
  let isExponent (c : Char) : Bool := c = 'e' || c = 'E'
  let (_, cs) := splitSign cs
  let mantissa := cs.takeWhile (!isExponent ·)
  let tail := cs.dropWhile (!isExponent ·)
  let whole ← wholeDigits? (mantissa.takeWhile (· ≠ '.'))
  let part ← match mantissa.dropWhile (· ≠ '.') with
    | [] => some []
    | _ :: part => digits? 10 part
  let exponent ← match tail with
    | [] => some 0
    | _ :: e => exponent? e
  if tail = [] && !mantissa.contains '.' then none
  else some (isFinite (whole ++ part) (exponent - part.length))

/-- A number that is no number or has no bound. -/
def isSpecialFloat (cs : List Char) : Bool :=
  let body := (splitSign cs).2
  body = ['i', 'n', 'f'] || body = ['n', 'a', 'n']

/-- The number of exactly `count` digits, and what follows. -/
def fixedDigits? (count : Nat) (cs : List Char) : Option (Nat × List Char) :=
  let ds := cs.take count
  if ds.length = count && ds.all Char.isDigit then some (numberOf 10 ds, cs.drop count) else none

/-- What follows an expected character. -/
def after? (c : Char) (cs : List Char) : Option (List Char) :=
  match cs with
  | d :: cs => if d = c then some cs else none
  | [] => none

/-- How many days a month has. -/
def daysIn (year month : Nat) : Nat :=
  if month = 2 then
    if year % 4 = 0 && (year % 100 ≠ 0 || year % 400 = 0) then 29 else 28
  else if month = 4 || month = 6 || month = 9 || month = 11 then 30
  else 31

/-- What follows a date. -/
def afterDate? (cs : List Char) : Option (List Char) := do
  let (year, cs) ← fixedDigits? 4 cs
  let (month, cs) ← fixedDigits? 2 (← after? '-' cs)
  let (day, cs) ← fixedDigits? 2 (← after? '-' cs)
  if 1 ≤ month && month ≤ 12 && 1 ≤ day && day ≤ daysIn year month then some cs else none

/-- What follows the seconds of a time and their fraction. -/
def afterSeconds? (cs : List Char) : Option (List Char) := do
  let (second, cs) ← fixedDigits? 2 cs
  if 60 < second then none
  else
    match cs with
    | '.' :: part =>
      if part.takeWhile Char.isDigit = [] then none else some (part.dropWhile Char.isDigit)
    | cs => some cs

/-- What follows a time.  It may leave out its seconds. -/
def afterTime? (cs : List Char) : Option (List Char) := do
  let (hour, cs) ← fixedDigits? 2 cs
  let (minute, cs) ← fixedDigits? 2 (← after? ':' cs)
  if hour ≤ 23 && minute ≤ 59 then
    match cs with
    | ':' :: cs => afterSeconds? cs
    | cs => some cs
  else none

/-- Whether the characters are an offset from universal time. -/
def isOffset (cs : List Char) : Bool :=
  match cs with
  | ['Z'] => true
  | ['z'] => true
  | sign :: cs =>
    (sign = '+' || sign = '-') &&
      match fixedDigits? 2 cs with
      | some (hour, ':' :: cs) =>
        match fixedDigits? 2 cs with
        | some (minute, []) => hour ≤ 23 && minute ≤ 59
        | _ => false
      | _ => false
  | [] => false

/-- Whether the characters are a date, a time, or both. -/
def isDateTime (cs : List Char) : Bool :=
  match afterDate? cs with
  | some [] => true
  | some (separator :: time) =>
    (separator = 'T' || separator = 't' || separator = ' ') &&
      match afterTime? time with
      | some rest => rest = [] || isOffset rest
      | none => false
  | none => afterTime? cs = some []

/-- The value that is written by some characters. -/
def scalar? (cs : List Char) : Option Value :=
  if cs = "true".toList then some (.boolean true)
  else if cs = "false".toList then some (.boolean false)
  else if isSpecialFloat cs then some (.float true)
  else
    match integer? cs, finiteFloat? cs with
    | some n, _ => some (.integer n)
    | none, some finite => some (.float finite)
    | none, none => if isDateTime cs then some .dateTime else none

end PipedCompiler.Toml
