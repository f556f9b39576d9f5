/-!
# Formats of log lines
-/

namespace PipedCompiler.CommandLine

/-- How log lines are written. -/
inductive LogFormat where
  | text
  | json
  deriving Repr, DecidableEq

namespace LogFormat

/-- The name of a format. -/
def name : LogFormat → String
  | .text => "text"
  | .json => "json"

/-- All names of formats. -/
def names : List (String × LogFormat) :=
  [("text", .text), ("json", .json)]

/-- A name that stands for no format. -/
structure Unknown where
  name : String
  deriving Repr, DecidableEq

/-- The wording of the error. -/
def Unknown.message (e : Unknown) : String :=
  s!"unknown log format '{e.name}'"

/-- The format of a name, which has to be in lower case. -/
def ofName (name : String) : Except Unknown LogFormat :=
  match names.lookup name with
  | some f => .ok f
  | none => .error ⟨name⟩

end LogFormat

end PipedCompiler.CommandLine
