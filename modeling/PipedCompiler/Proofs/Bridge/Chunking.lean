import PipedCompiler.Proofs.Bridge.Alternation

/-!
# Streams that are cut otherwise

A client with a time limit has everything read ahead, so its bytes reach it in other pieces than a
client without a limit would get them in.  Two streams are alike if they bring the same bytes and
then go on as one and the same stream.  Every reading comes to the same on both, takes a prefix of
what is to come, and leaves streams that are alike again; so no call can tell how a stream was cut.
-/

namespace PipedCompiler.Bridge

open PipedCompiler.Text

namespace Stream

/-! ## Streams that are alike -/

/-- Whether two streams bring the same bytes, each in its own pieces, and then go on as one. -/
def Alike (s s' : Stream) : Prop :=
  ∃ bs t, s.Brings bs t ∧ s'.Brings bs t

namespace Alike

variable {s s' : Stream}

theorem refl (s : Stream) : Alike s s :=
  ⟨[], s, .nil s, .nil s⟩

theorem append (h : Alike s s') (ds : List Delivery) : Alike (s.append ds) (s'.append ds) := by
  obtain ⟨bs, t, hs, hs'⟩ := h
  exact ⟨bs, t.append ds, hs.append ds, hs'.append ds⟩

theorem toBytes_eq (h : Alike s s') : s.toBytes = s'.toBytes := by
  obtain ⟨bs, t, hs, hs'⟩ := h
  rw [hs.toBytes_eq, hs'.toBytes_eq]

end Alike

/-- Whether a reading comes to the same on streams that are alike, and takes nothing but a prefix of
the bytes to come. -/
def CutFree {α : Type} (read : Stream → α × Stream) : Prop :=
  ∀ s s', Alike s s' → ∃ result t t', read s = (result, t) ∧ read s' = (result, t') ∧
    Alike t t' ∧ t.toBytes <:+ s.toBytes

/-- Whatever a byte is read for, what is left is the end of what was to come. -/
theorem suffix_readByteFrom (ending : Ending) (ds : List Delivery) :
    (readByteFrom ending ds).2.toBytes <:+ toBytes ⟨ds, ending⟩ := by
  induction ds with
  | nil => cases ending <;> exact List.suffix_rfl
  | cons d ds ih =>
      cases d with
      | bytes cs =>
          cases cs with
          | nil => exact ih
          | cons c cs => exact List.suffix_cons c _
      | failure e =>
          rw [readByteFrom]
          split
          · exact ih
          · exact List.suffix_rfl

theorem suffix_readUpToFrom (ending : Ending) (n : Nat) (parts : List Bytes)
    (ds : List Delivery) :
    (readUpToFrom ending n parts ds).2.toBytes <:+ toBytes ⟨ds, ending⟩ := by
  induction ds generalizing n parts with
  | nil => cases n <;> cases ending <;> exact List.suffix_rfl
  | cons d ds ih =>
      cases n with
      | zero => exact List.suffix_rfl
      | succ n =>
          cases d with
          | bytes cs =>
              rw [readUpToFrom]
              split
              · refine ⟨cs.take (n + 1), ?_⟩
                simp only [toBytes, List.flatMap_cons, deliveredBytes]
                rw [← List.append_assoc, List.take_append_drop]
              · exact (ih _ _).trans (List.suffix_append cs _)
          | failure e =>
              rw [readUpToFrom]
              split
              · exact ih _ _
              · exact List.suffix_rfl

/-! ## Reading bytes -/

theorem cutFree_readByte : CutFree readByte := by
  rintro s s' ⟨bs, t, hs, hs'⟩
  have hsuffix := suffix_readByteFrom s.ending s.deliveries
  cases bs with
  | nil =>
      refine ⟨t.readByte.1, t.readByte.2, t.readByte.2, hs.readByte_nil, hs'.readByte_nil,
        .refl _, ?_⟩
      rw [← hs.readByte_nil]
      exact hsuffix
  | cons b bs =>
      obtain ⟨u, hread, hu⟩ := hs.readByte_cons
      obtain ⟨u', hread', hu'⟩ := hs'.readByte_cons
      refine ⟨.ok (some b), u, u', hread, hread', ⟨bs, t, hu, hu'⟩, ?_⟩
      rw [← show s.readByte.2 = u by rw [hread]]
      exact hsuffix

theorem cutFree_readUpTo (n : Nat) : CutFree (readUpTo n) := by
  rintro s s' ⟨bs, t, hs, hs'⟩
  have hsuffix : (s.readUpTo n).2.toBytes <:+ s.toBytes := suffix_readUpToFrom s.ending n [] _
  rcases Nat.lt_or_ge bs.length n with hbeyond | hwithin
  · -- both streams are used up, and the rest is read from what they go on as
    have hread := hs.readUpToFrom_beyond hbeyond []
    rw [← hs'.readUpToFrom_beyond hbeyond []] at hread
    exact ⟨_, _, (s.readUpTo n).2, rfl, hread.symm, .refl _, hsuffix⟩
  · obtain ⟨taken, left, rfl, rfl⟩ : ∃ taken left, bs = taken ++ left ∧ n = taken.length :=
      ⟨bs.take n, bs.drop n, by simp, by simp [hwithin]⟩
    obtain ⟨u, hread, hu⟩ := hs.readUpTo_append
    obtain ⟨u', hread', hu'⟩ := hs'.readUpTo_append
    rw [hread] at hsuffix
    exact ⟨.ok taken, u, u', hread, hread', ⟨left, t, hu, hu'⟩, hsuffix⟩

end Stream

/-! ## Reading responses -/

section Reading

open PipedCompiler.Bridge.Stream

theorem cutFree_readCountFrom (room : Nat) (header : List Char) :
    CutFree (readCountFrom room header) := by
  induction room using Nat.strongRecOn generalizing header with
  | ind room ih =>
      intro s s' h
      obtain ⟨result, t, t', hread, hread', ht, hsuffix⟩ := cutFree_readByte s s' h
      rw [readCountFrom, readCountFrom, hread, hread']
      rcases result with e | _ | b
      · exact ⟨_, t, t', rfl, rfl, ht, hsuffix⟩
      · exact ⟨_, t, t', rfl, rfl, ht, hsuffix⟩
      · dsimp only
        split
        · exact ⟨_, t, t', rfl, rfl, ht, hsuffix⟩
        split
        · exact ⟨_, t, t', rfl, rfl, ht, hsuffix⟩
        cases room with
        | zero => exact ⟨_, t, t', rfl, rfl, ht, hsuffix⟩
        | succ left =>
            obtain ⟨n, u, u', hrest, hrest', hu, hsuffix'⟩ :=
              ih left (Nat.lt_succ_self left) (Char.ofNat b.toNat :: header) t t' ht
            exact ⟨n, u, u', hrest, hrest', hu, hsuffix'.trans hsuffix⟩

theorem cutFree_readContents : CutFree readContents := by
  intro s s' h
  obtain ⟨count, t, t', hread, hread', ht, hsuffix⟩ :=
    cutFree_readCountFrom headerLimit [] s s' h
  simp only [readContents, readCount, hread, hread']
  rcases count with e | n | n
  · exact ⟨_, t, t', rfl, rfl, ht, hsuffix⟩
  · obtain ⟨body, u, u', hbody, hbody', hu, hsuffix'⟩ := cutFree_readUpTo n t t' ht
    dsimp only
    rw [hbody, hbody']
    cases body with
    | error e => exact ⟨_, u, u', rfl, rfl, hu, hsuffix'.trans hsuffix⟩
    | ok body =>
        dsimp only
        split <;> exact ⟨_, u, u', rfl, rfl, hu, hsuffix'.trans hsuffix⟩
  · exact ⟨_, t, t', rfl, rfl, ht, hsuffix⟩

theorem cutFree_readPresence : CutFree readPresence := by
  intro s s' h
  obtain ⟨result, t, t', hread, hread', ht, hsuffix⟩ := cutFree_readByte s s' h
  rw [readPresence, readPresence, hread, hread']
  rcases result with e | _ | b
  · exact ⟨_, t, t', rfl, rfl, ht, hsuffix⟩
  · exact ⟨_, t, t', rfl, rfl, ht, hsuffix⟩
  · dsimp only
    split
    · exact ⟨_, t, t', rfl, rfl, ht, hsuffix⟩
    · split <;> exact ⟨_, t, t', rfl, rfl, ht, hsuffix⟩

theorem Response.cutFree_read (kind : RequestKind) : CutFree (Response.read kind) := by
  intro s s' h
  cases kind with
  | contents =>
      obtain ⟨result, t, t', hread, hread', ht, hsuffix⟩ := cutFree_readContents s s' h
      simp only [Response.read, hread, hread']
      cases result <;> exact ⟨_, t, t', rfl, rfl, ht, hsuffix⟩
  | presence =>
      obtain ⟨result, t, t', hread, hread', ht, hsuffix⟩ := cutFree_readPresence s s' h
      simp only [Response.read, hread, hread']
      cases result <;> exact ⟨_, t, t', rfl, rfl, ht, hsuffix⟩

end Reading

/-! ## Calls -/

@[simp] theorem BridgeError.withLimit_none (e : BridgeError) : e.withLimit none = e := by
  unfold BridgeError.withLimit
  split
  · rfl
  · next hlimit => cases hlimit
  · rfl

namespace Client

variable {σ : Type} [Outlet σ] {limit : Duration} {c c' : Client σ}

/-- Two clients, one with a time limit and one without, that differ in nothing but where the bytes
before them are cut. -/
structure Alike (limit : Duration) (c c' : Client σ) : Prop where
  limited : c.limit = some limit
  unlimited : c'.limit = none
  stream : c.stream.Alike c'.stream
  outlet : c.outlet = c'.outlet
  poisoned : c.poisoned = c'.poisoned
  roundTrips : c.roundTrips = c'.roundTrips

/-- The result of a client with a time limit, where one without a limit comes to this. -/
def limited {α : Type} (limit : Duration) : Except BridgeError α → Except BridgeError α :=
  Except.mapError (BridgeError.withLimit (some limit))

theorem Alike.exchange (h : Alike limit c c') (r : Request) :
    ∃ result d d', c.exchange r = (result, d) ∧ c'.exchange r = (result, d') ∧
      Alike limit d d' := by
  rw [Client.exchange, Client.exchange]
  cases r.encode with
  | error e => exact ⟨.error e, c, c', rfl, rfl, h⟩
  | ok line =>
      dsimp only
      rw [h.outlet]
      rcases Outlet.send line c'.outlet with ⟨e | ds, outlet⟩
      · exact ⟨_, _, _, rfl, rfl, { h with outlet := rfl }⟩
      · obtain ⟨result, t, t', hread, hread', ht, -⟩ :=
          Response.cutFree_read r.kind _ _ (h.stream.append ds)
        dsimp only
        rw [hread, hread']
        exact ⟨result, _, _, rfl, rfl, { h with outlet := rfl, stream := ht }⟩

/-- A failure that is not that of a path is the last one. -/
theorem request_of_breaks {d : Client σ} {r : Request} {e : BridgeError} (h : c.poisoned = false)
    (hexchange : c.exchange r = (.error e, d)) (he : e.Breaks) :
    c.request r = (.error (e.withLimit d.limit), { d with poisoned := true }) := by
  rw [Client.request, h, if_neg Bool.false_ne_true, hexchange]
  cases e with
  | invalidPath path => exact absurd rfl (he path)
  | _ => rfl

theorem Alike.request (h : Alike limit c c') (r : Request) :
    ∃ result d d', c.request r = (Client.limited limit result, d) ∧
      c'.request r = (result, d') ∧ Alike limit d d' := by
  cases hpoisoned' : c'.poisoned with
  | true =>
      refine ⟨.error .poisoned, c, c', ?_, ?_, h⟩
      · rw [Client.request, h.poisoned, if_pos hpoisoned']
        rfl
      · rw [Client.request, if_pos hpoisoned']
  | false =>
      have hpoisoned : c.poisoned = false := h.poisoned.trans hpoisoned'
      obtain ⟨result, d, d', hexchange, hexchange', hd⟩ := h.exchange r
      rcases result with e | response
      · by_cases he : e.Breaks
        · refine ⟨.error e, { d with poisoned := true }, { d' with poisoned := true }, ?_, ?_,
            { hd with poisoned := rfl }⟩
          · rw [request_of_breaks hpoisoned hexchange he, hd.limited]
            rfl
          · rw [request_of_breaks hpoisoned' hexchange' he, hd.unlimited,
              BridgeError.withLimit_none]
        · obtain ⟨path, rfl⟩ : ∃ path, e = .invalidPath path := by
            simpa [BridgeError.Breaks] using he
          refine ⟨.error (.invalidPath path), d, d', ?_, ?_, hd⟩
          · rw [Client.request, hpoisoned, if_neg Bool.false_ne_true, hexchange]
            rfl
          · rw [Client.request, hpoisoned', if_neg Bool.false_ne_true, hexchange']
      · refine ⟨.ok response, { d with roundTrips := d.roundTrips + 1 },
          { d' with roundTrips := d'.roundTrips + 1 }, ?_, ?_, { hd with roundTrips := ?_ }⟩
        · rw [Client.request, hpoisoned, if_neg Bool.false_ne_true, hexchange]
          rfl
        · rw [Client.request, hpoisoned', if_neg Bool.false_ne_true, hexchange']
        · exact congrArg (· + 1) hd.roundTrips

theorem Alike.call (h : Alike limit c c') (k : Call) :
    ∃ result d d', c.call k = (Client.limited limit result, d) ∧
      c'.call k = (result, d') ∧ Alike limit d d' := by
  cases k with
  | contents path =>
      obtain ⟨result, d, d', hrequest, hrequest', hd⟩ := h.request ⟨.contents, path⟩
      simp only [Client.call, Client.readContents, hrequest, hrequest']
      rcases result with e | _ | _ | _ <;> exact ⟨_, d, d', rfl, rfl, hd⟩
  | presence path =>
      obtain ⟨result, d, d', hrequest, hrequest', hd⟩ := h.request ⟨.presence, path⟩
      simp only [Client.call, Client.readPresence, hrequest, hrequest']
      rcases result with e | _ | _ | _ <;> exact ⟨_, d, d', rfl, rfl, hd⟩
  | request r =>
      obtain ⟨result, d, d', hrequest, hrequest', hd⟩ := h.request r
      simp only [Client.call, hrequest, hrequest']
      cases result <;> exact ⟨_, d, d', rfl, rfl, hd⟩

theorem Alike.calls (h : Alike limit c c') (ks : List Call) :
    (c.calls ks).1 = (c'.calls ks).1.map (Client.limited limit) ∧
      Alike limit (c.calls ks).2 (c'.calls ks).2 := by
  induction ks generalizing c c' with
  | nil => exact ⟨rfl, h⟩
  | cons k ks ih =>
      obtain ⟨result, d, d', hcall, hcall', hd⟩ := h.call k
      obtain ⟨hresults, hlast⟩ := ih hd
      rw [calls_cons, calls_cons, hcall, hcall']
      exact ⟨by rw [hresults, List.map_cons], hlast⟩

/-! ## What is taken -/

/-- Whether nothing is ever delivered in return for a line. -/
def SilentOutlet (σ : Type) [Outlet σ] : Prop :=
  ∀ line (outlet outlet' : σ) ds, Outlet.send line outlet = (.ok ds, outlet') → ds = []

theorem suffix_exchange (h : SilentOutlet σ) (c : Client σ) (r : Request) :
    (c.exchange r).2.stream.toBytes <:+ c.stream.toBytes := by
  rw [Client.exchange]
  cases r.encode with
  | error e => exact List.suffix_rfl
  | ok line =>
      dsimp only
      rcases hsend : Outlet.send line c.outlet with ⟨e | ds, outlet⟩
      · exact List.suffix_rfl
      · obtain rfl := h _ _ _ _ hsend
        obtain ⟨result, t, -, hread, -, -, hsuffix⟩ :=
          Response.cutFree_read r.kind _ _ (.refl (c.stream.append []))
        dsimp only
        rw [hread]
        simpa [Stream.append] using hsuffix

/-- A call leaves the stream as it is, or as an exchange leaves it. -/
theorem stream_call (c : Client σ) (k : Call) :
    (c.call k).2.stream = c.stream ∨
      (c.call k).2.stream = (c.exchange k.question).2.stream := by
  have hquestion : (c.call k).2 = (c.request k.question).2 := by
    cases k with
    | contents path =>
        simp only [Client.call, Client.readContents, Call.question]
        rcases c.request ⟨.contents, path⟩ with ⟨_ | _ | _ | _, d⟩ <;> rfl
    | presence path =>
        simp only [Client.call, Client.readPresence, Call.question]
        rcases c.request ⟨.presence, path⟩ with ⟨_ | _ | _ | _, d⟩ <;> rfl
    | request r => rfl
  rw [hquestion, Client.request]
  split
  · exact .inl rfl
  · rcases c.exchange k.question with ⟨e | response, d⟩
    · cases e <;> exact .inr rfl
    · exact .inr rfl

/-- What is left after calls is the end of what was to come. -/
theorem suffix_calls (h : SilentOutlet σ) (c : Client σ) (ks : List Call) :
    (c.calls ks).2.stream.toBytes <:+ c.stream.toBytes := by
  induction ks generalizing c with
  | nil => exact List.suffix_rfl
  | cons k ks ih =>
      have hrest := ih (c.call k).2
      rw [calls_cons]
      rcases c.stream_call k with hstream | hstream
      · rwa [hstream] at hrest
      · rw [hstream] at hrest
        exact hrest.trans (suffix_exchange h c k.question)

end Client

/-! ## Chunks -/

namespace Stream

/-- What a stream ends with that may fail in the end. -/
def failing (failure : Option IoError) : List Delivery :=
  failure.toList.map .failure

/-- Whether a delivery is a chunk that is not empty, or an interruption. -/
def IsChunk : Delivery → Prop
  | .bytes bs => bs ≠ []
  | .failure e => isRetried e = true

theorem flatten_portions (bs : Bytes) : (portions bs).flatten = bs := by
  induction bs using portions.induct with
  | case1 bs h =>
      rw [portions, dif_pos h, List.flatten_singleton]
  | case2 bs h ih =>
      rw [portions, dif_neg h, List.flatten_cons, ih, List.take_append_drop]

/-- Portions bring their bytes, whatever comes behind them. -/
theorem Brings.of_portions_append (portions : List Bytes) (ds : List Delivery)
    (ending : Ending) :
    Brings ⟨portions.map .bytes ++ ds, ending⟩ portions.flatten ⟨ds, ending⟩ := by
  induction portions with
  | nil => exact .nil _
  | cons p ps ih => exact .portion p ih

/-- What is passed on of chunks brings their bytes. -/
theorem Brings.of_pump {chunks : List Delivery} (hchunks : ∀ d ∈ chunks, IsChunk d)
    (ds : List Delivery) (ending : Ending) :
    Brings ⟨pump (chunks ++ ds), ending⟩ (chunks.flatMap deliveredBytes) ⟨pump ds, ending⟩ := by
  induction chunks with
  | nil => exact .nil _
  | cons d chunks ih =>
      have hrest := ih fun d hd ↦ hchunks d (List.mem_cons_of_mem _ hd)
      cases d with
      | bytes bs =>
          have hbs := Brings.of_portions_append (portions bs) (pump (chunks ++ ds)) ending
          rw [flatten_portions] at hbs
          exact hbs.trans hrest
      | failure e =>
          have he : isRetried e = true := hchunks (.failure e) List.mem_cons_self
          rw [List.cons_append, pump, if_pos he]
          exact hrest

theorem pump_failing {failure : Option IoError} (h : ∀ e ∈ failure, isRetried e = false) :
    pump (failing failure) = failing failure := by
  cases failure with
  | none => rfl
  | some e => simp [failing, pump, h e rfl]

/-- Chunks that are passed on, and then fail or end, are the same bytes in one piece. -/
theorem alike_pumped {chunks : List Delivery} (hchunks : ∀ d ∈ chunks, IsChunk d)
    {failure : Option IoError} (hfailure : ∀ e ∈ failure, isRetried e = false) :
    Alike (pumped ⟨chunks ++ failing failure, .closed⟩)
      ⟨.bytes (chunks.flatMap deliveredBytes) :: failing failure, .closed⟩ := by
  refine ⟨chunks.flatMap deliveredBytes, ⟨failing failure, .closed⟩, ?_, ?_⟩
  · have hpump := Brings.of_pump hchunks (failing failure) .closed
    rw [pump_failing hfailure] at hpump
    simpa [pumped] using hpump
  · simpa using Brings.portion (chunks.flatMap deliveredBytes) (.nil ⟨failing failure, .closed⟩)

end Stream

/-- Chunks never matter.  However bytes are cut into chunks, with any interruptions between them,
and whether a failure or the end comes behind them: a client with a time limit, to which they are
passed on, comes to the same as one without a limit that has them in one piece, except that readings
that took too long are timeouts.  Both have then written the same, and have the same bytes before
them, which are the end of all the bytes. -/
theorem calls_chunked {σ : Type} [Outlet σ] (limit : Duration) (outlet : σ)
    {chunks : List Delivery} (hchunks : ∀ d ∈ chunks, Stream.IsChunk d)
    {failure : Option IoError} (hfailure : ∀ e ∈ failure, Stream.isRetried e = false)
    (ks : List Call) :
    let arriving : Stream := ⟨chunks ++ Stream.failing failure, .closed⟩
    let whole : Stream := ⟨.bytes arriving.toBytes :: Stream.failing failure, .closed⟩
    let chunked := (Client.startWithin limit arriving outlet).calls ks
    let joined := (Client.start whole outlet).calls ks
    chunked.1 = joined.1.map (Client.limited limit) ∧
    chunked.2.roundTrips = joined.2.roundTrips ∧
    chunked.2.poisoned = joined.2.poisoned ∧
    chunked.2.outlet = joined.2.outlet ∧
    chunked.2.stream.toBytes = joined.2.stream.toBytes ∧
    (Client.SilentOutlet σ → chunked.2.stream.toBytes <:+ arriving.toBytes) := by
  intro arriving whole chunked joined
  have hbytes : arriving.toBytes = chunks.flatMap Stream.deliveredBytes := by
    cases failure <;> simp [arriving, Stream.toBytes, Stream.failing, Stream.deliveredBytes]
  have hstreams : arriving.pumped.Alike whole := by
    have hpumped := Stream.alike_pumped hchunks hfailure
    rwa [← hbytes] at hpumped
  have hstart : Client.Alike limit (Client.startWithin limit arriving outlet)
      (Client.start whole outlet) :=
    ⟨rfl, rfl, hstreams, rfl, rfl, rfl⟩
  obtain ⟨hresults, hend⟩ := hstart.calls ks
  refine ⟨hresults, hend.roundTrips, hend.poisoned, hend.outlet, hend.stream.toBytes_eq, ?_⟩
  intro hsilent
  have hwhole : whole.toBytes = arriving.toBytes := by
    cases failure <;> simp [whole, Stream.toBytes, Stream.failing, Stream.deliveredBytes]
  have hsuffix := Client.suffix_calls hsilent (Client.start whole outlet) ks
  rw [← hwhole, show chunked.2.stream.toBytes = _ from hend.stream.toBytes_eq]
  exact hsuffix

/-- Two answers are cut inside a count, inside a body and behind it, and a third answer comes too
late. -/
theorem calls_chunked_timeout :
    let chunks : List Delivery :=
      [.bytes [0x32], .failure ⟨.interrupted, "try again"⟩, .bytes [0x20, 0x61],
        .bytes [0x62, 0x31, 0x33]]
    let late : IoError := ⟨.timedOut, "no data"⟩
    let arriving : Stream := ⟨chunks ++ Stream.failing (some late), .closed⟩
    let chunked := (Client.startWithin (.ofMillis 5) arriving (Transcript.start none)).calls
      [.contents "a", .presence "b", .contents "c", .presence "d"]
    chunked.1 = [.ok (.contents (some [0x61, 0x62])), .ok (.presence true),
        .error (.timeout (.ofMillis 5)), .error .poisoned] ∧
      chunked.2.roundTrips = 2 ∧ chunked.2.poisoned = true ∧ chunked.2.stream.toBytes = [] := by
  intro chunks late arriving chunked
  have hchunks : ∀ d ∈ chunks, Stream.IsChunk d := by
    simp [chunks, Stream.IsChunk, Stream.isRetried]
  have hlate : ∀ e ∈ some late, Stream.isRetried e = false := by
    simp [late, Stream.isRetried]
  obtain ⟨hresults, htrips, hpoisoned, -, hleft, -⟩ :=
    calls_chunked (.ofMillis 5) (Transcript.start none) hchunks hlate
      [.contents "a", .presence "b", .contents "c", .presence "d"]
  dsimp only [chunked, arriving]
  rw [hresults, htrips, hpoisoned, hleft]
  dsimp only [chunks, late]
  decide +kernel

end PipedCompiler.Bridge
