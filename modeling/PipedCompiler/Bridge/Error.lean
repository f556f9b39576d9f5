import PipedCompiler.Text.Duration
import PipedCompiler.Text.Quoted
import PipedCompiler.Text.Utf8

/-!
# Failures of the bridge

Whatever goes wrong between a compiler and its parent.  Only a path that cannot be asked about
leaves the bridge in order.
-/

namespace PipedCompiler.Bridge

open PipedCompiler.Text

/-- What a failure of the system was. -/
inductive IoErrorKind where
  /-- Nothing was lost; the same may be tried again. -/
  | interrupted
  | timedOut
  | other
  deriving Repr, DecidableEq

/-- A failure of the system. -/
structure IoError where
  kind : IoErrorKind
  message : String
  deriving Repr, DecidableEq

/-- How an answer broke the rules. -/
inductive FrameFault where
  /-- An answer about presence that is neither yes nor no. -/
  | notPresence (byte : UInt8)
  /-- A byte that belongs in no count, after some that do. -/
  | strayByte (byte : UInt8) (header : String)
  | longHeader
  /-- Characters of a count that are none, or one too large. -/
  | notCount (header : String)
  /-- An answer about presence to a question about contents. -/
  | presenceForContents
  /-- An answer about contents to a question about presence. -/
  | contentsForPresence
  | other (text : String)
  deriving Repr, DecidableEq

/-- A byte as two hexadecimal digits. -/
def hexByte (b : UInt8) : String :=
  String.ofList [Nat.digitChar (b.toNat / 16), Nat.digitChar (b.toNat % 16)]

/-- The most characters that a count may have. -/
def headerLimit : Nat := 20

/-- The wording of a fault. -/
def FrameFault.message : FrameFault → String
  | .notPresence byte =>
    "expected '0' or '1' for an exists response, got byte 0x" ++ hexByte byte
  | .strayByte byte header =>
    "unexpected byte 0x" ++ hexByte byte ++ " in byte count header " ++ quoted header
  | .longHeader => s!"byte count header longer than {headerLimit} characters"
  | .notCount header => "invalid byte count " ++ quoted header
  | .presenceForContents => "exists answer received for a read request"
  | .contentsForPresence => "read answer received for an exists request"
  | .other text => text

/-- A failure of the bridge. -/
inductive BridgeError where
  /-- The bytes ended inside an answer. -/
  | truncated (expected received : Nat)
  /-- A question could not be sent. -/
  | unavailable (cause : IoError)
  | readFailed (cause : IoError)
  | timeout (limit : Duration)
  | malformed (fault : FrameFault)
  /-- A path that cannot be asked about. -/
  | invalidPath (path : String)
  /-- The bridge failed before. -/
  | poisoned
  deriving Repr, DecidableEq

namespace BridgeError

/-- The wording of a failure. -/
def message : BridgeError → String
  | .truncated expected received =>
    s!"stream closed mid-frame: expected {expected} bytes, received {received}"
  | .unavailable cause => "bridge unavailable: " ++ cause.message
  | .readFailed cause => "failed to read from bridge: " ++ cause.message
  | .timeout limit => "bridge request timed out after " ++ limit.text
  | .malformed fault => "malformed frame: " ++ fault.message
  | .invalidPath path => "path cannot be sent over the bridge: " ++ quoted path
  | .poisoned => "bridge session is unusable after an earlier transport failure"

/-- Whether the failure means that the parent is gone. -/
def isDisconnect : BridgeError → Bool
  | .truncated _ _ => true
  | .unavailable _ => true
  | .poisoned => true
  | _ => false

/-- A read that took too long, where a limit was set, is a timeout. -/
def withLimit (limit : Option Duration) (e : BridgeError) : BridgeError :=
  match e, limit with
  | .readFailed ⟨.timedOut, message⟩, none => .readFailed ⟨.timedOut, message⟩
  | .readFailed ⟨.timedOut, _⟩, some limit => .timeout limit
  | e, _ => e

end BridgeError

end PipedCompiler.Bridge
