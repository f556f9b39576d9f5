import PipedCompiler.Bridge.Response

/-!
# The compiler's end of the bridge

A client asks one question at a time and reads its answer.  Once that has failed the two ends may be
out of step, so the client gives up for good: it is poisoned.
-/

namespace PipedCompiler.Bridge

open PipedCompiler.Text

/-- Where questions are written to.  Sending a line either fails, or makes the other end deliver
something. -/
class Outlet (σ : Type) where
  send : Bytes → σ → Except IoError (List Delivery) × σ

/-- The compiler's end of the bridge. -/
structure Client (σ : Type) where
  stream : Stream
  outlet : σ
  /-- How long an answer may take. -/
  limit : Option Duration
  poisoned : Bool
  /-- How many questions have been answered. -/
  roundTrips : Nat

namespace Client

variable {σ : Type} [Outlet σ]

/-- A client that waits for answers as long as they take. -/
def start (stream : Stream) (outlet : σ) : Client σ :=
  ⟨stream, outlet, none, false, 0⟩

/-- A client that waits for each delivery no longer than the limit. -/
def startWithin (limit : Duration) (stream : Stream) (outlet : σ) : Client σ :=
  ⟨stream.pumped, outlet, some limit, false, 0⟩

/-- Sends a request and reads its response, whatever has happened before. -/
def exchange (c : Client σ) (r : Request) : Except BridgeError Response × Client σ :=
  match r.encode with
  | .error e => (.error e, c)
  | .ok line =>
    match Outlet.send line c.outlet with
    | (.error e, outlet) => (.error (.unavailable e), { c with outlet })
    | (.ok deliveries, outlet) =>
      let (response, stream) := Response.read r.kind (c.stream.append deliveries)
      (response, { c with outlet, stream })

/-- Makes a request.  Any failure other than that of a path that cannot be sent is the last one. -/
def request (c : Client σ) (r : Request) : Except BridgeError Response × Client σ :=
  if c.poisoned then (.error .poisoned, c)
  else
    match c.exchange r with
    | (.ok response, c) => (.ok response, { c with roundTrips := c.roundTrips + 1 })
    | (.error (.invalidPath path), c) => (.error (.invalidPath path), c)
    | (.error e, c) => (.error (e.withLimit c.limit), { c with poisoned := true })

/-- Asks for the contents of a file; `none` if there is no such file. -/
def readContents (c : Client σ) (path : String) : Except BridgeError (Option Bytes) × Client σ :=
  match c.request ⟨.contents, path⟩ with
  | (.error e, c) => (.error e, c)
  | (.ok (.contents bs), c) => (.ok (some bs), c)
  | (.ok .notFound, c) => (.ok none, c)
  | (.ok (.presence _), c) => (.error (.malformed .presenceForContents), c)

/-- Asks whether there is such a file. -/
def readPresence (c : Client σ) (path : String) : Except BridgeError Bool × Client σ :=
  match c.request ⟨.presence, path⟩ with
  | (.error e, c) => (.error e, c)
  | (.ok (.presence found), c) => (.ok found, c)
  | (.ok _, c) => (.error (.malformed .contentsForPresence), c)

end Client

end PipedCompiler.Bridge
