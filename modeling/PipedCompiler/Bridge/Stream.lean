import PipedCompiler.Bridge.Error

/-!
# Streams of bytes

The reading end of a pipe: what is still to arrive, in the portions it arrives in, and what becomes
of it afterwards.  Reading never sees where one portion ends and the next one starts.
-/

namespace PipedCompiler.Bridge

open PipedCompiler.Text

/-- What one reading of the system comes to. -/
inductive Delivery where
  | bytes (bs : Bytes)
  | failure (e : IoError)
  deriving Repr, DecidableEq

/-- What a stream does after its last delivery. -/
inductive Ending where
  | closed
  /-- Nothing ever comes, until the reader gives up. -/
  | silent
  deriving Repr, DecidableEq

/-- What a reader still has before it. -/
structure Stream where
  deliveries : List Delivery
  ending : Ending
  deriving Repr, DecidableEq

namespace Stream

/-- A stream that has these bytes and then ends. -/
def ofBytes (bs : Bytes) : Stream :=
  ⟨[.bytes bs], .closed⟩

/-- The failure of a reader that gives up waiting. -/
def silence : IoError := ⟨.timedOut, "no data"⟩

/-- Whether a failing reading is simply tried again. -/
def isRetried (e : IoError) : Bool :=
  e.kind = .interrupted

/-- Reads the next byte; `none` at the end. -/
def readByteFrom (ending : Ending) : List Delivery → Except IoError (Option UInt8) × Stream
  | [] =>
    match ending with
    | .closed => (.ok none, ⟨[], ending⟩)
    | .silent => (.error silence, ⟨[], ending⟩)
  | .bytes [] :: ds => readByteFrom ending ds
  | .bytes (b :: bs) :: ds => (.ok (some b), ⟨.bytes bs :: ds, ending⟩)
  | .failure e :: ds => if isRetried e then readByteFrom ending ds else (.error e, ⟨ds, ending⟩)

/-- Reads the next byte; `none` at the end. -/
def readByte (s : Stream) : Except IoError (Option UInt8) × Stream :=
  readByteFrom s.ending s.deliveries

/-- Reads `count` bytes, or all up to the end if there are fewer, after some parts that are given in
reverse. -/
def readUpToFrom (ending : Ending) :
    (count : Nat) → (parts : List Bytes) → List Delivery → Except IoError Bytes × Stream
  | 0, parts, ds => (.ok parts.reverse.flatten, ⟨ds, ending⟩)
  | _ + 1, parts, [] =>
    match ending with
    | .closed => (.ok parts.reverse.flatten, ⟨[], ending⟩)
    | .silent => (.error silence, ⟨[], ending⟩)
  | n + 1, parts, .bytes bs :: ds =>
    if n + 1 < bs.length then
      (.ok (bs.take (n + 1) :: parts).reverse.flatten, ⟨.bytes (bs.drop (n + 1)) :: ds, ending⟩)
    else readUpToFrom ending (n + 1 - bs.length) (bs :: parts) ds
  | n + 1, parts, .failure e :: ds =>
    if isRetried e then readUpToFrom ending (n + 1) parts ds else (.error e, ⟨ds, ending⟩)

/-- Reads `count` bytes, or all up to the end if there are fewer. -/
def readUpTo (count : Nat) (s : Stream) : Except IoError Bytes × Stream :=
  readUpToFrom s.ending count [] s.deliveries

/-- The bytes that a delivery brings. -/
def deliveredBytes : Delivery → Bytes
  | .bytes bs => bs
  | .failure _ => []

/-- The bytes still to come. -/
def toBytes (s : Stream) : Bytes :=
  s.deliveries.flatMap deliveredBytes

/-- The stream with more to come at its end. -/
def append (s : Stream) (ds : List Delivery) : Stream :=
  { s with deliveries := s.deliveries ++ ds }

/-- The most bytes that are passed on at once. -/
def portionLimit : Nat := 8192

/-- Some bytes in portions of at most the limit. -/
def portions (bs : Bytes) : List Bytes :=
  if _h : bs.length ≤ portionLimit then [bs]
  else bs.take portionLimit :: portions (bs.drop portionLimit)
termination_by bs.length
decreasing_by simp only [List.length_drop, portionLimit] at *; omega

/-- What a reader with a time limit gets to see.  Everything is read ahead and passed on in portions,
interruptions are dropped, and nothing is read after a failure. -/
def pump : List Delivery → List Delivery
  | [] => []
  | .bytes bs :: ds => (portions bs).map .bytes ++ pump ds
  | .failure e :: ds => if isRetried e then pump ds else [.failure e]

/-- The stream that a reader with a time limit reads from.  After a failure it is closed. -/
def pumped (s : Stream) : Stream :=
  let stops := s.deliveries.any fun d =>
    match d with
    | .bytes _ => false
    | .failure e => !isRetried e
  ⟨pump s.deliveries, if stops then .closed else s.ending⟩

end Stream

end PipedCompiler.Bridge
