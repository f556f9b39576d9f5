import Mathlib.Data.List.Forall2
import PipedCompiler.Bridge.Transcript
import PipedCompiler.Proofs.Bridge.Frame

/-!
# Questions and answers in turn

A client writes one line, reads one frame, and only then goes on.  The bridge has no other way to
tell which answer belongs to which question, so a client that has lost step must never speak again.

`Asked` lists what can come of one call, whatever the stream brings and however the outlet fails.
`calls_alternate` puts calls together: as long as a client is not poisoned, what it has written are
the lines of the requests that have been answered, and what it has read are the frames of the
answers.
-/

namespace PipedCompiler.Bridge

open PipedCompiler.Text

/-! ## Calls -/

/-- What a client can be asked to do. -/
inductive Call where
  | contents (path : String)
  | presence (path : String)
  | request (r : Request)

/-- The request that a call makes. -/
def Call.question : Call → Request
  | .contents path => ⟨.contents, path⟩
  | .presence path => ⟨.presence, path⟩
  | .request r => r

/-- What a call gives. -/
inductive Reply where
  | contents (found : Option Bytes)
  | presence (found : Bool)
  | response (r : Response)
  deriving DecidableEq

/-- The response behind a reply. -/
def Reply.toResponse : Reply → Response
  | .contents found => .ofContents found
  | .presence found => .presence found
  | .response r => r

namespace Client

variable {σ : Type} [Outlet σ]

/-- Makes a call. -/
def call (c : Client σ) : Call → Except BridgeError Reply × Client σ
  | .contents path => let (found, c) := c.readContents path; (found.map .contents, c)
  | .presence path => let (found, c) := c.readPresence path; (found.map .presence, c)
  | .request r => let (response, c) := c.request r; (response.map .response, c)

/-- Makes calls one after the other. -/
def calls (c : Client σ) : List Call → List (Except BridgeError Reply) × Client σ
  | [] => ([], c)
  | k :: ks =>
    let (result, c) := c.call k
    let (results, c) := c.calls ks
    (result :: results, c)

end Client

/-! ## One call -/

/-- What an exchange can fail with, once its line is on the way. -/
def BridgeError.OfExchange : BridgeError → Prop
  | .truncated _ _ => True
  | .unavailable _ => True
  | .readFailed _ => True
  | .timeout _ => True
  | .malformed fault => fault ≠ .presenceForContents ∧ fault ≠ .contentsForPresence
  | .invalidPath _ => False
  | .poisoned => False

/-- A failure after which the two ends may be out of step. -/
def BridgeError.Breaks (e : BridgeError) : Prop :=
  ∀ path, e ≠ .invalidPath path

theorem BridgeError.OfExchange.breaks {e : BridgeError} (h : e.OfExchange) : e.Breaks := by
  rintro path rfl
  exact h

section Failures

variable {s s' : Stream} {e : BridgeError}

theorem ofExchange_of_readCountFrom {room : Nat} {header : List Char}
    (h : readCountFrom room header s = (.error e, s')) : e.OfExchange := by
  induction room generalizing header s with
  | zero =>
      rw [readCountFrom] at h
      grind [BridgeError.OfExchange, countOf]
  | succ room ih =>
      rw [readCountFrom] at h
      grind [BridgeError.OfExchange, countOf]

theorem ofExchange_of_readContents (h : readContents s = (.error e, s')) : e.OfExchange := by
  rw [readContents] at h
  split at h
  · next hcount =>
    cases h
    exact ofExchange_of_readCountFrom hcount
  · cases h
  · split at h
    · cases h
      trivial
    · split at h
      · cases h
        trivial
      · cases h

theorem ofExchange_of_readPresence (h : readPresence s = (.error e, s')) : e.OfExchange := by
  rw [readPresence] at h
  grind [BridgeError.OfExchange]

theorem ofExchange_of_read {kind : RequestKind} (h : Response.read kind s = (.error e, s')) :
    e.OfExchange := by
  cases kind with
  | contents =>
      simp only [Response.read] at h
      split at h
      · next hread =>
        cases h
        exact ofExchange_of_readContents hread
      · cases h
  | presence =>
      simp only [Response.read] at h
      split at h
      · next hread =>
        cases h
        exact ofExchange_of_readPresence hread
      · cases h

theorem ofExchange_withLimit (limit : Option Duration) (h : e.OfExchange) :
    (e.withLimit limit).OfExchange := by
  unfold BridgeError.withLimit
  split
  · trivial
  · trivial
  · exact h

end Failures

/-- A path that cannot be sent is all that can be wrong with a request. -/
theorem Request.encode_error {r : Request} {e : BridgeError} (h : r.encode = .error e) :
    e = .invalidPath r.path := by
  rw [Request.encode] at h
  split at h
  · exact (Except.error.inj h).symm
  · cases h

/-- What can come of asking, where `meaning` gives the response behind an answer. -/
inductive Asked {σ α : Type} [Outlet σ] (c : Client σ) (r : Request) (meaning : α → Response) :
    Except BridgeError α → Client σ → Prop where
  /-- A poisoned client does nothing. -/
  | refused : c.poisoned = true → Asked c r meaning (.error .poisoned) c
  /-- A path that cannot be sent is found out before anything happens. -/
  | unsendable : c.poisoned = false → Asked c r meaning (.error (.invalidPath r.path)) c
  | failed {e : BridgeError} {c' : Client σ} : c.poisoned = false → e.OfExchange →
      c'.poisoned = true → c'.roundTrips = c.roundTrips → Asked c r meaning (.error e) c'
  /-- A line has been sent, and a frame of the right kind has been read. -/
  | answered {a : α} {line f : Bytes} {ds : List Delivery} {outlet : σ} {stream : Stream} :
      c.poisoned = false → r.encode = .ok line → Outlet.send line c.outlet = (.ok ds, outlet) →
      Frame r.kind f (meaning a) → (c.stream.append ds).toBytes = f ++ stream.toBytes →
      Asked c r meaning (.ok a) { c with stream, outlet, roundTrips := c.roundTrips + 1 }

namespace Client

variable {σ : Type} [Outlet σ]

theorem asked_request (c : Client σ) (r : Request) :
    Asked c r id (c.request r).1 (c.request r).2 := by
  rw [request]
  cases hpoisoned : c.poisoned with
  | true => exact .refused hpoisoned
  | false =>
      rw [if_neg Bool.false_ne_true, exchange]
      cases hline : r.encode with
      | error e =>
          obtain rfl := Request.encode_error hline
          exact .unsendable hpoisoned
      | ok line =>
          dsimp only
          cases hsend : Outlet.send line c.outlet with
          | mk sent outlet =>
              cases sent with
              | error e => exact .failed hpoisoned (ofExchange_withLimit _ trivial) rfl rfl
              | ok ds =>
                  dsimp only
                  cases hread : Response.read r.kind (c.stream.append ds) with
                  | mk response stream =>
                      cases response with
                      | ok response =>
                          obtain ⟨f, hframe, hbytes⟩ := frame_of_read hread
                          exact .answered hpoisoned hline hsend hframe hbytes
                      | error e =>
                          have he := ofExchange_of_read hread
                          cases e with
                          | invalidPath path => exact he.elim
                          | _ => exact .failed hpoisoned (ofExchange_withLimit _ he) rfl rfl

theorem asked_readContents (c : Client σ) (path : String) :
    Asked c ⟨.contents, path⟩ .ofContents (c.readContents path).1 (c.readContents path).2 := by
  have h := c.asked_request ⟨.contents, path⟩
  rw [readContents]
  rcases hreq : c.request ⟨.contents, path⟩ with ⟨result, c'⟩
  rw [hreq] at h
  cases h with
  | refused hp => exact .refused hp
  | unsendable hp => exact .unsendable hp
  | failed hp he hp' hr => exact .failed hp he hp' hr
  | @answered a line f ds outlet stream hp hline hsend hframe hbytes =>
      cases hframe with
      | @contents count body hchars hlength hn =>
          exact .answered (a := some body) hp hline hsend (.contents hchars hlength hn) hbytes
      | notFound hchars hlength hn =>
          exact .answered (a := none) hp hline hsend (.notFound hchars hlength hn) hbytes

theorem asked_readPresence (c : Client σ) (path : String) :
    Asked c ⟨.presence, path⟩ .presence (c.readPresence path).1 (c.readPresence path).2 := by
  have h := c.asked_request ⟨.presence, path⟩
  rw [readPresence]
  rcases hreq : c.request ⟨.presence, path⟩ with ⟨result, c'⟩
  rw [hreq] at h
  cases h with
  | refused hp => exact .refused hp
  | unsendable hp => exact .unsendable hp
  | failed hp he hp' hr => exact .failed hp he hp' hr
  | answered hp hline hsend hframe hbytes =>
      cases hframe with
      | presence found => exact .answered hp hline hsend (.presence found) hbytes

end Client

/-! ## A call of which the frame is known -/

namespace Client

variable {σ : Type} [Outlet σ] {c : Client σ} {r : Request} {line f p tail : Bytes}
variable {ds : List Delivery} {outlet : σ} {t : Stream} {response : Response}

/-- Once a line has been sent, an exchange is a reading. -/
theorem exchange_sent (hline : r.encode = .ok line)
    (hsend : Outlet.send line c.outlet = (.ok ds, outlet)) :
    c.exchange r =
      ((Response.read r.kind (c.stream.append ds)).1,
        { c with outlet, stream := (Response.read r.kind (c.stream.append ds)).2 }) := by
  rw [exchange, hline]
  dsimp only
  rw [hsend]

/-- A call that can be sent writes its line, whatever comes back. -/
theorem request_outlet (hpoisoned : c.poisoned = false) (hline : r.encode = .ok line)
    (hsend : Outlet.send line c.outlet = (.ok ds, outlet)) : (c.request r).2.outlet = outlet := by
  rw [request, if_neg (by simp [hpoisoned]), exchange_sent hline hsend]
  rcases Response.read r.kind (c.stream.append ds) with ⟨result, stream⟩
  cases result with
  | ok response => rfl
  | error e => cases e <;> rfl

/-- A call takes its frame from the stream and leaves what follows. -/
theorem request_answered (hpoisoned : c.poisoned = false) (hline : r.encode = .ok line)
    (hsend : Outlet.send line c.outlet = (.ok ds, outlet)) (hframe : Frame r.kind f response)
    (h : (c.stream.append ds).Brings (f ++ tail) t) :
    ∃ stream, stream.Brings tail t ∧ c.request r =
      (.ok response, { c with stream, outlet, roundTrips := c.roundTrips + 1 }) := by
  obtain ⟨stream, hread, hstream⟩ := hframe.read h
  refine ⟨stream, hstream, ?_⟩
  rw [request, if_neg (by simp [hpoisoned]), exchange_sent hline hsend, hread]

/-- A call of which the frame is not complete waits for the rest. -/
theorem request_waits (hpoisoned : c.poisoned = false) (hlimit : c.limit = none)
    (hline : r.encode = .ok line) (hsend : Outlet.send line c.outlet = (.ok ds, outlet))
    (hframe : Frame r.kind f response) (hp : p <+: f) (hne : p ≠ f)
    (h : (c.stream.append ds).Brings p (.spent .silent)) :
    (c.request r).1 = .error (.readFailed Stream.silence) := by
  obtain ⟨expected, received, -, hread⟩ := hframe.read_cut hp hne h
  rw [request, if_neg (by simp [hpoisoned]), exchange_sent hline hsend, hread, cutShort]
  dsimp only
  rw [hlimit]
  rfl

end Client

section Asked

variable {σ α β : Type} [Outlet σ] {c c' : Client σ} {r : Request} {meaning : α → Response}
variable {result : Except BridgeError α}

theorem Asked.map (h : Asked c r meaning result c') {meaning' : β → Response} {f : α → β}
    (hf : ∀ a, meaning' (f a) = meaning a) : Asked c r meaning' (result.map f) c' := by
  cases h with
  | refused hp => exact .refused hp
  | unsendable hp => exact .unsendable hp
  | failed hp he hp' hr => exact .failed hp he hp' hr
  | answered hp hline hsend hframe hbytes =>
      exact .answered hp hline hsend ((hf _).symm ▸ hframe) hbytes

/-- Asking poisons the client if it breaks the bridge. -/
theorem Asked.poisoned_iff (h : Asked c r meaning result c') :
    c'.poisoned = true ↔ c.poisoned = true ∨ ∃ e, result = .error e ∧ e.Breaks := by
  cases h with
  | refused hp => simp [hp]
  | unsendable hp => simp [hp, BridgeError.Breaks]
  | failed hp he hp' hr =>
      simp only [hp', true_iff]
      exact .inr ⟨_, rfl, he.breaks⟩
  | answered hp hline hsend hframe hbytes => simp [hp]

theorem Asked.roundTrips_eq (h : Asked c r meaning result c') :
    c'.roundTrips = c.roundTrips + if result.isOk then 1 else 0 := by
  cases h with
  | refused hp => rfl
  | unsendable hp => rfl
  | failed hp he hp' hr => exact hr
  | answered hp hline hsend hframe hbytes => rfl

theorem Asked.of_poisoned (h : Asked c r meaning result c') (hp : c.poisoned = true) :
    result = .error .poisoned ∧ c' = c := by
  have hne : c.poisoned ≠ false := by simp [hp]
  cases h with
  | refused => exact ⟨rfl, rfl⟩
  | unsendable hp' => exact absurd hp' hne
  | failed hp' => exact absurd hp' hne
  | answered hp' => exact absurd hp' hne

theorem Asked.of_invalidPath {path : String}
    (h : Asked c r meaning (.error (.invalidPath path)) c') : c' = c := by
  cases h with
  | unsendable => rfl
  | failed _ he => exact he.elim

/-- No answer is ever found to be of the wrong kind. -/
theorem Asked.matches {fault : FrameFault}
    (h : Asked c r meaning (.error (.malformed fault)) c') :
    fault ≠ .presenceForContents ∧ fault ≠ .contentsForPresence := by
  cases h with
  | failed _ he => exact he

end Asked

namespace Client

variable {σ : Type} [Outlet σ]

theorem asked_call (c : Client σ) (k : Call) :
    Asked c k.question Reply.toResponse (c.call k).1 (c.call k).2 := by
  cases k with
  | contents path => exact (c.asked_readContents path).map fun _ ↦ rfl
  | presence path => exact (c.asked_readPresence path).map fun _ ↦ rfl
  | request r => exact (c.asked_request r).map fun _ ↦ rfl

/-- A poisoned client neither writes nor reads. -/
theorem call_of_poisoned {c : Client σ} (h : c.poisoned = true) (k : Call) :
    c.call k = (.error .poisoned, c) := by
  obtain ⟨hresult, hc⟩ := (c.asked_call k).of_poisoned h
  exact Prod.ext hresult hc

/-! ## Many calls -/

@[simp] theorem calls_nil (c : Client σ) : c.calls [] = ([], c) := rfl

@[simp] theorem calls_cons (c : Client σ) (k : Call) (ks : List Call) :
    c.calls (k :: ks) =
      ((c.call k).1 :: ((c.call k).2.calls ks).1, ((c.call k).2.calls ks).2) := rfl

theorem calls_of_poisoned {c : Client σ} (h : c.poisoned = true) (ks : List Call) :
    c.calls ks = (ks.map fun _ ↦ .error .poisoned, c) := by
  induction ks with
  | nil => rfl
  | cons k ks ih => rw [calls_cons, call_of_poisoned h, ih, List.map_cons]

theorem poisoned_calls_iff (c : Client σ) (ks : List Call) :
    (c.calls ks).2.poisoned = true ↔
      c.poisoned = true ∨ ∃ e, .error e ∈ (c.calls ks).1 ∧ e.Breaks := by
  induction ks generalizing c with
  | nil => simp
  | cons k ks ih =>
      rw [calls_cons]
      simp only [ih, (c.asked_call k).poisoned_iff, List.mem_cons, or_and_right, exists_or,
        eq_comm (b := (c.call k).1), or_assoc]

theorem roundTrips_calls (c : Client σ) (ks : List Call) :
    (c.calls ks).2.roundTrips = c.roundTrips + (c.calls ks).1.countP Except.isOk := by
  induction ks generalizing c with
  | nil => rfl
  | cons k ks ih =>
      rw [calls_cons]
      simp only [ih, (c.asked_call k).roundTrips_eq, List.countP_cons]
      omega

theorem not_mismatch_of_mem_calls {c : Client σ} {ks : List Call} {fault : FrameFault}
    (h : .error (.malformed fault) ∈ (c.calls ks).1) :
    fault ≠ .presenceForContents ∧ fault ≠ .contentsForPresence := by
  induction ks generalizing c with
  | nil => cases h
  | cons k ks ih =>
      rw [calls_cons] at h
      rcases List.mem_cons.mp h with hfirst | hrest
      · exact (hfirst ▸ c.asked_call k).matches
      · exact ih hrest

end Client

/-! ## Keeping step -/

/-- Lines that an outlet has taken one after the other, and what it has delivered meanwhile. -/
inductive Sent {σ : Type} [Outlet σ] : σ → List Bytes → List Delivery → σ → Prop where
  | nil (outlet : σ) : Sent outlet [] [] outlet
  | cons {outlet outlet₁ outlet₂ : σ} {line : Bytes} {lines : List Bytes}
      {ds es : List Delivery} : Outlet.send line outlet = (.ok ds, outlet₁) →
      Sent outlet₁ lines es outlet₂ → Sent outlet (line :: lines) (ds ++ es) outlet₂

/-- Whether a view of an outlet shows all that it has taken. -/
def Records {σ : Type} [Outlet σ] (written : σ → Bytes) : Prop :=
  ∀ line outlet ds outlet', Outlet.send line outlet = (.ok ds, outlet') →
    written outlet' = written outlet ++ line

theorem Sent.written_eq {σ : Type} [Outlet σ] {outlet outlet' : σ} {lines : List Bytes}
    {ds : List Delivery} (h : Sent outlet lines ds outlet') {written : σ → Bytes}
    (hw : Records written) : written outlet' = written outlet ++ lines.flatten := by
  induction h with
  | nil => simp
  | cons hsend _ ih => rw [ih, hw _ _ _ _ hsend, List.flatten_cons, List.append_assoc]

/-- A transcript shows all that it has taken. -/
theorem records_transcript : Records Transcript.written := by
  intro line t ds t' h
  simp only [Outlet.send, Transcript.send] at h
  split at h
  · cases h
    simp [Transcript.written]
  · cases h
  · cases h

/-- The requests that have been answered, with their responses. -/
def exchanges : List Call → List (Except BridgeError Reply) → List (Request × Response)
  | k :: ks, .ok reply :: results => (k.question, reply.toResponse) :: exchanges ks results
  | _ :: ks, .error _ :: results => exchanges ks results
  | _, _ => []

/-- Whether lines and frames are those of some requests and their responses. -/
def Carried (es : List (Request × Response)) (lines fs : List Bytes) : Prop :=
  List.Forall₂ (fun e line ↦ e.1.encode = .ok line) es lines ∧
    List.Forall₂ (fun e f ↦ Frame e.1.kind f e.2) es fs

/-- While a client is not poisoned it has kept step. -/
theorem Client.calls_keep_step {σ : Type} [Outlet σ] {c : Client σ} {ks : List Call}
    (h : (c.calls ks).2.poisoned = false) :
    ∃ lines fs ds, Carried (exchanges ks (c.calls ks).1) lines fs ∧
      Sent c.outlet lines ds (c.calls ks).2.outlet ∧
      (c.stream.append ds).toBytes = fs.flatten ++ (c.calls ks).2.stream.toBytes := by
  induction ks generalizing c with
  | nil =>
      refine ⟨[], [], [], ⟨.nil, .nil⟩, .nil _, ?_⟩
      simp [Stream.append]
  | cons k ks ih =>
      rw [calls_cons] at h ⊢
      obtain ⟨lines, fs, ds, ⟨hlines, hfs⟩, hsent, hbytes⟩ := ih h
      have hasked := c.asked_call k
      rcases hcall : c.call k with ⟨result, c₁⟩
      rw [hcall] at hasked hlines hfs hsent hbytes
      cases hasked with
      | refused => exact ⟨lines, fs, ds, ⟨hlines, hfs⟩, hsent, hbytes⟩
      | unsendable => exact ⟨lines, fs, ds, ⟨hlines, hfs⟩, hsent, hbytes⟩
      | failed _ _ hpoisoned =>
          rw [hcall, calls_of_poisoned hpoisoned] at h
          rw [hpoisoned] at h
          cases h
      | @answered reply line f es outlet stream _ hline hsend hframe hread =>
          refine ⟨line :: lines, f :: fs, es ++ ds, ⟨.cons hline hlines, .cons hframe hfs⟩,
            .cons hsend hsent, ?_⟩
          simp only [Stream.toBytes, Stream.append, List.flatMap_append] at hread hbytes ⊢
          rw [← List.append_assoc, hread, List.append_assoc, hbytes, List.flatten_cons,
            List.append_assoc]

/-- Questions and answers come in turn, whatever the stream brings, however the outlet fails and
whatever is called.  A client is poisoned by the first failure that is not that of a path, and does
nothing from then on; it counts the calls that went well; until it is poisoned it has written the
lines of the answered requests and read the frames of their answers, and nothing else; a path that
cannot be sent changes nothing; and an answer is always of the kind that was asked for. -/
theorem calls_alternate {σ : Type} [Outlet σ] (stream : Stream) (outlet : σ)
    (limit : Option Duration) (ks : List Call) :
    let c : Client σ := ⟨stream, outlet, limit, false, 0⟩
    let results := (c.calls ks).1
    let c' := (c.calls ks).2
    (c'.poisoned = true ↔ ∃ e, .error e ∈ results ∧ e.Breaks) ∧
    (c'.poisoned = true → ∀ later, c'.calls later = (later.map fun _ ↦ .error .poisoned, c')) ∧
    c'.roundTrips = results.countP Except.isOk ∧
    (c'.poisoned = false → ∃ lines fs ds, Carried (exchanges ks results) lines fs ∧
      Sent outlet lines ds c'.outlet ∧
      (∀ written, Records written → written c'.outlet = written outlet ++ lines.flatten) ∧
      (stream.append ds).toBytes = fs.flatten ++ c'.stream.toBytes) ∧
    (∀ k path, (c'.call k).1 = .error (.invalidPath path) → (c'.call k).2 = c') ∧
    ∀ fault, .error (.malformed fault) ∈ results →
      fault ≠ .presenceForContents ∧ fault ≠ .contentsForPresence := by
  intro c results c'
  refine ⟨?_, ?_, ?_, ?_, ?_, ?_⟩
  · simpa [c] using c.poisoned_calls_iff ks
  · intro hpoisoned later
    exact Client.calls_of_poisoned hpoisoned later
  · simpa [c] using c.roundTrips_calls ks
  · intro hpoisoned
    obtain ⟨lines, fs, ds, hcarried, hsent, hbytes⟩ := Client.calls_keep_step hpoisoned
    exact ⟨lines, fs, ds, hcarried, hsent, fun _ hw ↦ hsent.written_eq hw, hbytes⟩
  · intro k path hpath
    exact (hpath ▸ c'.asked_call k).of_invalidPath
  · intro fault hfault
    exact Client.not_mismatch_of_mem_calls hfault

end PipedCompiler.Bridge
