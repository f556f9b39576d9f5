import PipedCompiler.SourceFile
import PipedCompiler.Text.Decimal

/-!
# Diagnostics

What a compile has to say about its sources.  A diagnostic is shown on one line:
`file(line,column): severity code: message`, where the position, or the whole place, may be missing.
-/

namespace PipedCompiler

open PipedCompiler.Text

/-- How grave a diagnostic is. -/
inductive Severity where
  | error
  | warning
  | message
  deriving Repr, DecidableEq

/-- The name of a severity. -/
def Severity.name : Severity → String
  | .error => "error"
  | .warning => "warning"
  | .message => "message"

/-- The severity of a name. -/
def Severity.ofName? (name : String) : Option Severity :=
  [.error, .warning, .message].find? (·.name == name)

/-- Something to say about a source. -/
structure Diagnostic where
  file : Option String
  /-- The line, counted from one. -/
  line : Option UInt32
  /-- The column, counted from one. -/
  column : Option UInt32
  severity : Severity
  code : String
  message : String
  deriving Repr, DecidableEq

namespace Diagnostic

/-- A diagnostic about nothing in particular. -/
def plain (severity : Severity) (code message : String) : Diagnostic :=
  ⟨none, none, none, severity, code, message⟩

/-- An error about nothing in particular. -/
def error (code message : String) : Diagnostic :=
  plain .error code message

/-- The diagnostic about a file. -/
def inFile (d : Diagnostic) (path : String) : Diagnostic :=
  { d with file := some path }

/-- The diagnostic about a byte offset of a file. -/
def place (d : Diagnostic) (f : SourceFile) (offset : Nat) : Diagnostic :=
  let p := position f.chars offset
  { d with file := some f.path, line := some p.line, column := some p.column }

/-- Whether the diagnostic is an error. -/
def isError (d : Diagnostic) : Bool :=
  d.severity = .error

/-- The digits of a line or column. -/
def count (n : UInt32) : String :=
  String.ofList (Decimal.digits n.toNat)

/-- Where the diagnostic belongs, as far as it is known. -/
def placeText (d : Diagnostic) : String :=
  match d.file, d.line, d.column with
  | some file, some line, some column => file ++ "(" ++ count line ++ "," ++ count column ++ "): "
  | some file, _, _ => file ++ ": "
  | none, _, _ => ""

/-- The diagnostic as one line. -/
def text (d : Diagnostic) : String :=
  d.placeText ++ d.severity.name ++ " " ++ d.code ++ ": " ++ d.message

/-- The diagnostics, one a line. -/
def textLines (ds : List Diagnostic) : String :=
  "\n".intercalate (ds.map text)

end Diagnostic

end PipedCompiler
