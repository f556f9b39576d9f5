/-!
# TOML values

What a TOML document says.  Of dates and times, and of numbers with a fraction, only as much is kept
as tells whether they can be represented.
-/

namespace PipedCompiler.Toml

/-- A TOML value. -/
inductive Value where
  | string (s : String)
  | integer (n : Int)
  /-- A number with a fraction or an exponent. -/
  | float (isRepresentable : Bool)
  | boolean (b : Bool)
  | dateTime
  | array (items : List Value)
  | table (entries : List (String × Value))
  deriving Repr, Inhabited

namespace Value

/-- Whether an integer fits into the widest type that is read. -/
def isIntegerRepresentable (n : Int) : Bool :=
  -Int.pow 2 127 ≤ n && n < Int.pow 2 128

mutual

/-- Whether all numbers in a value can be represented. -/
def isRepresentable : Value → Bool
  | .integer n => isIntegerRepresentable n
  | .float representable => representable
  | .array items => areRepresentable items
  | .table entries => areEntriesRepresentable entries
  | _ => true

/-- Whether all numbers in some values can be represented. -/
def areRepresentable : List Value → Bool
  | [] => true
  | v :: vs => v.isRepresentable && areRepresentable vs

/-- Whether all numbers in some entries can be represented. -/
def areEntriesRepresentable : List (String × Value) → Bool
  | [] => true
  | (_, v) :: entries => v.isRepresentable && areEntriesRepresentable entries

end

end Value

end PipedCompiler.Toml
