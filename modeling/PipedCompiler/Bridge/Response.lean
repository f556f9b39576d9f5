import PipedCompiler.Bridge.Request
import PipedCompiler.Bridge.Stream
import PipedCompiler.Text.Decimal

/-!
# Responses

A response is a frame.  Contents are a count, a space and that many bytes, and a count below zero
tells that there are none; presence is one digit.  So whatever follows a frame is left alone.
-/

namespace PipedCompiler.Bridge

open PipedCompiler.Text

/-- An answer of the parent. -/
inductive Response where
  | contents (bs : Bytes)
  | notFound
  | presence (found : Bool)
  deriving Repr, DecidableEq

/-- The byte after a count. -/
def space : UInt8 := 0x20

namespace Response

/-- The answer to a question about contents. -/
def ofContents : Option Bytes → Response
  | some bs => .contents bs
  | none => .notFound

/-- The frame of some contents. -/
def contentsFrame (bs : Bytes) : Bytes :=
  Utf8.encode (Decimal.digits bs.length) ++ space :: bs

/-- The frame of a response. -/
def encode : Response → Bytes
  | .contents bs => contentsFrame bs
  | .notFound => bytesOf "-1 "
  | .presence found => bytesOf (if found then "1" else "0")

end Response

/-- The marker line and the frame that a successful compile ends with. -/
def encodeOutput (text : Bytes) : Bytes :=
  outputTag ++ lineFeed :: Response.contentsFrame text

/-- The result of a reading, and what is left of the stream. -/
abbrev Read (α : Type) := Stream → Except BridgeError α × Stream

/-- Whether a count may go on with the byte, after `header`, which is given in reverse. -/
def continuesCount (header : List Char) (b : UInt8) : Bool :=
  (0x30 ≤ b && b ≤ 0x39) || (b = 0x2d && header.isEmpty)

/-- The number that a whole count stands for. -/
def countOf (header : List Char) : Except BridgeError Int :=
  match Decimal.int64? header with
  | some n => .ok n
  | none => .error (.malformed (.notCount (String.ofList header)))

/-- Reads a count and the space after it.  Its characters so far are given in reverse, and `room`
tells how many more it may have. -/
def readCountFrom : (room : Nat) → (header : List Char) → Read Int
  | room, header, s =>
    match s.readByte with
    | (.error e, s) => (.error (.readFailed e), s)
    | (.ok none, s) => (.error (.truncated (header.length + 1) header.length), s)
    | (.ok (some b), s) =>
      if b = space then (countOf header.reverse, s)
      else if !continuesCount header b then
        (.error (.malformed (.strayByte b (String.ofList header.reverse))), s)
      else
        match room with
        | 0 => (.error (.malformed .longHeader), s)
        | room + 1 => readCountFrom room (Char.ofNat b.toNat :: header) s

/-- Reads a count and the space after it. -/
def readCount : Read Int :=
  readCountFrom headerLimit []

/-- Reads contents; `none` if there is no such file. -/
def readContents : Read (Option Bytes) := fun s =>
  match readCount s with
  | (.error e, s) => (.error e, s)
  | (.ok (.negSucc _), s) => (.ok none, s)
  | (.ok (.ofNat count), s) =>
    match s.readUpTo count with
    | (.error e, s) => (.error (.readFailed e), s)
    | (.ok body, s) =>
      if body.length < count then (.error (.truncated count body.length), s)
      else (.ok (some body), s)

/-- Reads presence. -/
def readPresence : Read Bool := fun s =>
  match s.readByte with
  | (.error e, s) => (.error (.readFailed e), s)
  | (.ok none, s) => (.error (.truncated 1 0), s)
  | (.ok (some b), s) =>
    if b = 0x31 then (.ok true, s)
    else if b = 0x30 then (.ok false, s)
    else (.error (.malformed (.notPresence b)), s)

/-- Reads the response to a request of the given kind. -/
def Response.read (kind : RequestKind) : Read Response := fun s =>
  match kind with
  | .contents =>
    match readContents s with
    | (.error e, s) => (.error e, s)
    | (.ok body, s) => (.ok (.ofContents body), s)
  | .presence =>
    match readPresence s with
    | (.error e, s) => (.error e, s)
    | (.ok found, s) => (.ok (.presence found), s)

end PipedCompiler.Bridge
