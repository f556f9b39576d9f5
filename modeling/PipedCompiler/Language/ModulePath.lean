/-!
# Paths of modules

A path is cut by slashes.  Here stand the folding of relative paths, the test for an extension and
the path that a module is emitted to.
-/

namespace PipedCompiler.Language

/-- The segments between the slashes of a path. -/
def segments (path : List Char) : List (List Char) :=
  path.splitOn '/'

/-- What comes after the last slash. -/
def fileName (path : List Char) : List Char :=
  (path.reverse.takeWhile (· ≠ '/')).reverse

/-- What comes before the last slash; nothing if there is none. -/
def parentDirectory (path : List Char) : List Char :=
  ((path.reverse.dropWhile (· ≠ '/')).drop 1).reverse

/-- Whether the file name has a point that is not its first character. -/
def hasExtension (path : List Char) : Bool :=
  ((fileName path).drop 1).contains '.'

/-- Appends one more segment to segments that are given in reverse.  Going up takes the last segment
away; where none can be taken it stays, except at the root of an absolute path. -/
def pushSegment (absolute : Bool) (before : List (List Char)) (segment : List Char) :
    List (List Char) :=
  if segment = [] || segment = ['.'] then before
  else if segment = ['.', '.'] then
    match before with
    | last :: more =>
      if last ≠ ['.', '.'] then more
      else if absolute then before
      else segment :: before
    | [] => if absolute then [] else [segment]
  else segment :: before

/-- The path from a directory, with the segments of `path` folded in. -/
def joinPath (directory path : List Char) : List Char :=
  let absolute := directory.head? == some '/'
  let start := ((segments directory).filter (· ≠ [])).reverse
  let folded := (segments path).foldl (pushSegment absolute) start
  let joined := ['/'].intercalate folded.reverse
  if absolute then '/' :: joined else joined

/-- Whether an import specifier is relative to the importing file. -/
def isRelative (specifier : List Char) : Bool :=
  ['.', '/'].isPrefixOf specifier || ['.', '.', '/'].isPrefixOf specifier

/-- Where a specifier points to, as far as the importing file decides it. -/
def importBase (importer specifier : List Char) : List Char :=
  if isRelative specifier then joinPath (parentDirectory importer) specifier else specifier

/-- The path without its last extension. -/
def stem (path : List Char) : List Char :=
  let name := fileName path
  let directory := path.take (path.length - name.length)
  match name.reverse.dropWhile (· ≠ '.') with
  | _ :: c :: before => directory ++ (c :: before).reverse
  | _ => path

/-- The path that a module is emitted to: its last extension is replaced by `.js`. -/
def outputPath (path : String) : String :=
  String.ofList (stem path.toList ++ ".js".toList)

end PipedCompiler.Language
