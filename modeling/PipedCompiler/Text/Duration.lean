import PipedCompiler.Text.Decimal

/-!
# Durations

A duration is shown in the largest unit of which it holds at least one, with the digits after the
point that it needs.
-/

namespace PipedCompiler.Text

/-- A span of time, in nanoseconds. -/
structure Duration where
  nanos : Nat
  deriving Repr, DecidableEq

namespace Duration

/-- The duration of that many milliseconds. -/
def ofMillis (ms : Nat) : Duration :=
  ⟨ms * 1000000⟩

/-- Whole milliseconds. -/
def millis (d : Duration) : Nat :=
  d.nanos / 1000000

/-- The digits after the point of `part` units out of `10 ^ places`, without zeros at the end. -/
def fraction (places part : Nat) : List Char :=
  let digits := Decimal.digits part
  let padded := List.replicate (places - digits.length) '0' ++ digits
  (padded.reverse.dropWhile (· == '0')).reverse

/-- `nanos` in units of `10 ^ places` nanoseconds. -/
def inUnits (nanos places : Nat) (suffix : String) : String :=
  let unit := Nat.pow 10 places
  let whole := String.ofList (Decimal.digits (nanos / unit))
  match fraction places (nanos % unit) with
  | [] => whole ++ suffix
  | part => whole ++ "." ++ String.ofList part ++ suffix

/-- The duration as text. -/
def text (d : Duration) : String :=
  if d.nanos < 1000 then inUnits d.nanos 0 "ns"
  else if d.nanos < 1000000 then inUnits d.nanos 3 "µs"
  else if d.nanos < 1000000000 then inUnits d.nanos 6 "ms"
  else inUnits d.nanos 9 "s"

end Duration

end PipedCompiler.Text
