/-!
# Lines

Cutting a text into lines.  A line ends with a line feed, or with a carriage return and a line feed;
the last one may also just end.
-/

namespace PipedCompiler.Text

/-- The lines of a text, the first of which goes on after characters that are given in reverse. -/
def linesFrom (line : List Char) : List Char → List (List Char)
  | [] => if line.isEmpty then [] else [line.reverse]
  | '\n' :: cs =>
    let line := match line with
      | '\r' :: line => line
      | line => line
    line.reverse :: linesFrom [] cs
  | c :: cs => linesFrom (c :: line) cs

/-- The lines of a text, without what ends them. -/
def lines (cs : List Char) : List (List Char) :=
  linesFrom [] cs

end PipedCompiler.Text
