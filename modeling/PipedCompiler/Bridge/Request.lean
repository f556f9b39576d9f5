import PipedCompiler.Bridge.Error

/-!
# Requests

A request is one line: a tag that tells what is asked, at once followed by a path.
-/

namespace PipedCompiler.Bridge

open PipedCompiler.Text

/-- What is asked about a path. -/
inductive RequestKind where
  /-- What the file holds. -/
  | contents
  /-- Whether there is such a file. -/
  | presence
  deriving Repr, DecidableEq

/-- A question to the parent. -/
structure Request where
  kind : RequestKind
  path : String
  deriving Repr, DecidableEq

/-- The byte that ends a line. -/
def lineFeed : UInt8 := 0x0a

/-- The tag of a kind of request. -/
def RequestKind.tag : RequestKind → Bytes
  | .contents => bytesOf "SRCBRIDGE_READFILE"
  | .presence => bytesOf "SRCBRIDGE_FILEEXISTS"

/-- The line of the marker before the output. -/
def outputTag : Bytes := bytesOf "SRCBRIDGE_OUTPUT"

namespace Request

/-- The line of a request.  A path that would end it early cannot be asked about. -/
def encode (r : Request) : Except BridgeError Bytes :=
  let path := bytesOf r.path
  if path.contains lineFeed then .error (.invalidPath r.path)
  else .ok (r.kind.tag ++ path ++ [lineFeed])

end Request

/-- A line without the line feed at its end. -/
def chomp (line : Bytes) : Bytes :=
  if line.getLast? = some lineFeed then line.dropLast else line

/-- What follows `expected` at the start of some bytes. -/
def afterTag? (tag bs : Bytes) : Option Bytes :=
  if tag.isPrefixOf bs then some (bs.drop tag.length) else none

/-- The request that a line makes, with or without its line feed. -/
def Request.ofLine? (line : Bytes) : Option Request :=
  let line := chomp line
  match afterTag? RequestKind.presence.tag line with
  | some path => some ⟨.presence, lossyString path⟩
  | none => (afterTag? RequestKind.contents.tag line).map fun path => ⟨.contents, lossyString path⟩

/-- Whether a line, with or without its line feed, is the marker before the output. -/
def isOutputMarker (line : Bytes) : Bool :=
  chomp line = outputTag

end PipedCompiler.Bridge
