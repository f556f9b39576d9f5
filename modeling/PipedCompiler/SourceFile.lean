import PipedCompiler.Options
import PipedCompiler.Text.Position
import PipedCompiler.Text.Utf8

/-!
# Source files

A source file is a text with the path it was asked for by.
-/

namespace PipedCompiler

open PipedCompiler.Text

/-- A source file. -/
structure SourceFile where
  path : String
  /-- The text, character by character. -/
  chars : List Char
  target : LanguageTarget
  deriving Repr, DecidableEq

namespace SourceFile

/-- The byte order mark, in UTF-8. -/
def byteOrderMark : Bytes := [0xef, 0xbb, 0xbf]

/-- The bytes without a byte order mark in front. -/
def withoutMark (bs : Bytes) : Bytes :=
  if byteOrderMark.isPrefixOf bs then bs.drop byteOrderMark.length else bs

/-- Reads the bytes of a file as text. -/
def decode (bs : Bytes) : Except Utf8.DecodeError (List Char) :=
  Utf8.decode (withoutMark bs)

/-- The text of the file. -/
def text (f : SourceFile) : String :=
  String.ofList f.chars

/-- Whether a path names a file of declarations, which are known everywhere and emit nothing. -/
def isDeclarationPath (path : String) : Bool :=
  path.endsWith ".d.ts"

/-- Whether the file only declares. -/
def isDeclaration (f : SourceFile) : Bool :=
  isDeclarationPath f.path

end SourceFile

end PipedCompiler
