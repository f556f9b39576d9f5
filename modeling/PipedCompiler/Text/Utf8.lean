/-!
# UTF-8

Bytes are read as characters by a machine that takes one byte at a time.  A sequence that cannot
go on is given up at the byte that does not fit, and that byte starts afresh; a sequence that the
end of the bytes cuts short is told apart from it.
-/

namespace PipedCompiler.Text

/-- A file's contents, a message on a pipe. -/
abbrev Bytes := List UInt8

namespace Utf8

/-- The bytes of a text. -/
def encode (cs : List Char) : Bytes :=
  cs.flatMap String.utf8EncodeChar

/-- A piece of a byte sequence. -/
inductive Segment where
  /-- A well-formed character. -/
  | char (c : Char)
  /-- Bytes that start no character. -/
  | broken (length : Nat)
  /-- Bytes that start a character which the end cuts short. -/
  | cut (length : Nat)
  deriving Repr, DecidableEq

/-- A character of several bytes of which some have been read. -/
structure Pending where
  /-- Bytes read so far. -/
  seen : Nat
  /-- The bits they carry. -/
  code : Nat
  /-- Bytes still to come, not counting the next one. -/
  later : Nat
  /-- The least byte that may come next. -/
  low : UInt8
  /-- The greatest byte that may come next. -/
  high : UInt8

/-- What a byte is when no character is pending: a character or a stray byte by itself, or the
start of a longer character. -/
def lead (b : UInt8) : Segment ⊕ Pending :=
  if b < 0x80 then .inl (.char (Char.ofNat b.toNat))
  else if b < 0xc2 then .inl (.broken 1)
  else if b < 0xe0 then .inr ⟨1, b.toNat % 0x20, 0, 0x80, 0xbf⟩
  else if b = 0xe0 then .inr ⟨1, 0, 1, 0xa0, 0xbf⟩
  else if b = 0xed then .inr ⟨1, 0xd, 1, 0x80, 0x9f⟩
  else if b < 0xf0 then .inr ⟨1, b.toNat % 0x10, 1, 0x80, 0xbf⟩
  else if b = 0xf0 then .inr ⟨1, 0, 2, 0x90, 0xbf⟩
  else if b < 0xf4 then .inr ⟨1, b.toNat % 0x08, 2, 0x80, 0xbf⟩
  else if b = 0xf4 then .inr ⟨1, 4, 2, 0x80, 0x8f⟩
  else .inl (.broken 1)

/-- Reads on from a pending character, or from none, with the segments so far in reverse. -/
def run : Option Pending → Bytes → List Segment → List Segment
  | none, [], acc => acc.reverse
  | some p, [], acc => (.cut p.seen :: acc).reverse
  | none, b :: bs, acc =>
    match lead b with
    | .inl segment => run none bs (segment :: acc)
    | .inr p => run (some p) bs acc
  | some p, b :: bs, acc =>
    if p.low ≤ b && b ≤ p.high then
      let code := p.code * 0x40 + b.toNat % 0x40
      match p.later with
      | 0 => run none bs (.char (Char.ofNat code) :: acc)
      | later + 1 => run (some ⟨p.seen + 1, code, later, 0x80, 0xbf⟩) bs acc
    else
      match lead b with
      | .inl segment => run none bs (segment :: .broken p.seen :: acc)
      | .inr q => run (some q) bs (.broken p.seen :: acc)

/-- The segments of a byte sequence. -/
def segments (bs : Bytes) : List Segment :=
  run none bs []

/-- Why bytes are not a text. -/
structure DecodeError where
  /-- Bytes before the offending ones, all well formed. -/
  validUpTo : Nat
  /-- How many bytes start no character; `none` when the end cuts a character short. -/
  length : Option Nat
  deriving Repr, DecidableEq

/-- The wording of a decoding error. -/
def DecodeError.message (e : DecodeError) : String :=
  match e.length with
  | some length => s!"invalid utf-8 sequence of {length} bytes from index {e.validUpTo}"
  | none => s!"incomplete utf-8 byte sequence from index {e.validUpTo}"

/-- The characters of the segments up to the first bad one, given the bytes and the characters
before. -/
def collect : Nat → List Char → List Segment → Except DecodeError (List Char)
  | _, acc, [] => .ok acc.reverse
  | index, acc, .char c :: rest => collect (index + c.utf8Size) (c :: acc) rest
  | index, _, .broken length :: _ => .error ⟨index, some length⟩
  | index, _, .cut _ :: _ => .error ⟨index, none⟩

/-- The text that the bytes are, or where they stop being one. -/
def decode (bs : Bytes) : Except DecodeError (List Char) :=
  collect 0 [] (segments bs)

/-- The character shown for a segment: a bad one shows as the replacement character. -/
def Segment.shown : Segment → Char
  | .char c => c
  | .broken _ => '\ufffd'
  | .cut _ => '\ufffd'

/-- The bytes as a text, with a replacement character for each bad piece. -/
def decodeLossy (bs : Bytes) : List Char :=
  (segments bs).map Segment.shown

end Utf8

/-- The bytes of a string. -/
def bytesOf (s : String) : Bytes :=
  Utf8.encode s.toList

/-- The bytes as a string, with a replacement character for each bad piece. -/
def lossyString (bs : Bytes) : String :=
  String.ofList (Utf8.decodeLossy bs)

end PipedCompiler.Text
