import Mathlib.Data.Prod.Lex
import Mathlib.Logic.Relation
import PipedCompiler.Proofs.Bridge.Alternation
import PipedCompiler.Proofs.Parent.Serving

/-!
# A compiler and its parent

A client and a parent run side by side, with a pipe in each direction.  Bytes go up one by one and
come down in portions, each at any time; so a call may find any part of its answer, and returns once
it has found enough of it.

`Stage` is the invariant: it lists the points that a conversation can have come to, with what is
then in the pipes and what each end is waiting for.  There are no numbers on questions and answers,
so what keeps the ends together is only that at each point every byte on its way is one that the
other end expects.
-/

namespace PipedCompiler.Parent

open PipedCompiler.Text PipedCompiler.Bridge

/-! ## The system -/

/-- What a client has in its hands of the pipes. -/
structure PipeEnds where
  /-- The portions that have come down. -/
  arrived : List Bytes
  /-- What has been written and is to go up. -/
  written : Bytes

instance : Outlet PipeEnds where
  send line ends := (.ok (ends.arrived.map .bytes), ⟨[], ends.written ++ line⟩)

/-- What the compiler is at. -/
inductive Activity where
  | asking (todo : List Request)
  /-- It is inside a call. -/
  | waiting (r : Request) (todo : List Request)
  | closed

/-- How much the compiler has still to do. -/
def Activity.left : Activity → Nat
  | .asking todo => 2 * todo.length + 1
  | .waiting _ todo => 2 * todo.length + 2
  | .closed => 0

/-- A compiler, its parent and the pipes between them. -/
structure Conversation (ρ : Type) where
  activity : Activity
  /-- The client, inside a call as it was before. -/
  client : Client PipeEnds
  /-- What the calls have come to. -/
  results : List (Except BridgeError Response)
  /-- The bytes on their way to the parent. -/
  up : Bytes
  /-- The bytes on their way to the client. -/
  down : Bytes
  /-- What the parent has taken. -/
  heard : Bytes
  parent : Server ρ
  /-- Whether the parent has met the end. -/
  finished : Bool

/-- The client, with nothing in its hands that is to go up. -/
def sent (c : Client PipeEnds) : Client PipeEnds :=
  { c with outlet := { c.outlet with written := [] } }

/-- The client, when a portion has come down. -/
def receive (c : Client PipeEnds) (portion : Bytes) : Client PipeEnds :=
  { c with outlet := { c.outlet with arrived := c.outlet.arrived ++ [portion] } }

/-! ## The client -/

/-- A client that has kept step and in whose hands are these bytes. -/
structure Ready (c : Client PipeEnds) (arrived : Bytes) : Prop where
  poisoned : c.poisoned = false
  limit : c.limit = none
  written : c.outlet.written = []
  stream : c.stream.Brings [] (.spent .silent)
  arrived : c.outlet.arrived.flatten = arrived

namespace Ready

variable {c : Client PipeEnds} {bs f : Bytes} {r : Request} {response : Response}

/-- What a call of the client finds to read. -/
theorem brings (h : Ready c bs) :
    (c.stream.append (c.outlet.arrived.map .bytes)).Brings bs (.spent .silent) := by
  have hstream := h.stream.append (c.outlet.arrived.map .bytes)
  have hportions := Stream.Brings.of_portions c.outlet.arrived .silent
  rw [h.arrived] at hportions
  exact hstream.trans hportions

theorem receive (h : Ready c bs) (portion : Bytes) : Ready (receive c portion) (bs ++ portion) where
  poisoned := h.poisoned
  limit := h.limit
  written := h.written
  stream := h.stream
  arrived := by simp [Parent.receive, h.arrived]

/-- What a call writes. -/
theorem written_request (h : Ready c bs) (hpath : lineFeed ∉ bytesOf r.path) :
    (c.request r).2.outlet.written = r.text ++ [lineFeed] := by
  rw [Client.request_outlet h.poisoned (Request.encode_eq hpath) rfl]
  show c.outlet.written ++ (r.text ++ [lineFeed]) = r.text ++ [lineFeed]
  rw [h.written, List.nil_append]

/-- A call that finds its frame returns. -/
theorem answered (h : Ready c f) (hpath : lineFeed ∉ bytesOf r.path)
    (hframe : Frame r.kind f response) :
    (c.request r).1 = .ok response ∧ Ready (sent (c.request r).2) [] := by
  have hbrings := h.brings
  rw [← List.append_nil f] at hbrings
  obtain ⟨stream, hstream, hrequest⟩ :=
    Client.request_answered h.poisoned (Request.encode_eq hpath) rfl hframe hbrings
  rw [hrequest]
  exact ⟨rfl, h.poisoned, h.limit, rfl, hstream, rfl⟩

/-- A call that finds less than its frame does not return. -/
theorem waits (h : Ready c bs) (hpath : lineFeed ∉ bytesOf r.path)
    (hframe : Frame r.kind f response) (hbs : bs <+: f) (hne : bs ≠ f) :
    (c.request r).1 = .error (.readFailed Stream.silence) :=
  Client.request_waits h.poisoned h.limit (Request.encode_eq hpath) rfl hframe hbs hne h.brings

end Ready

/-! ## The steps -/

namespace Conversation

variable {ρ : Type} [Resolver ρ]

/-- A compiler that is to make some requests. -/
def start (resolver : ρ) (requests : List Request) : Conversation ρ where
  activity := .asking requests
  client := Client.start ⟨[], .silent⟩ ⟨[], []⟩
  results := []
  up := []
  down := []
  heard := []
  parent := Server.start resolver
  finished := false

/-- What can happen next, where `text` is the output. -/
inductive Step (text : Bytes) : Conversation ρ → Conversation ρ → Prop where
  /-- A call writes its line. -/
  | ask {s : Conversation ρ} {r : Request} {todo : List Request} :
      s.activity = .asking (r :: todo) →
      Step text s { s with
        activity := .waiting r todo
        up := s.up ++ (s.client.request r).2.outlet.written }
  /-- A call returns, as it need not wait for more. -/
  | resume {s : Conversation ρ} {r : Request} {todo : List Request} :
      s.activity = .waiting r todo →
      (s.client.request r).1 ≠ .error (.readFailed Stream.silence) →
      Step text s { s with
        activity := .asking todo
        client := sent (s.client.request r).2
        results := s.results ++ [(s.client.request r).1] }
  /-- The compiler writes its output and closes. -/
  | close {s : Conversation ρ} :
      s.activity = .asking [] →
      Step text s { s with activity := .closed, up := s.up ++ encodeOutput text }
  /-- The parent takes a byte, and writes what it has to. -/
  | hear {s : Conversation ρ} {b : UInt8} {bs : Bytes} :
      s.up = b :: bs → s.finished = false →
      Step text s { s with
        up := bs
        down := s.down ++ (s.parent.takeByte b).1
        heard := s.heard ++ [b]
        parent := (s.parent.takeByte b).2 }
  /-- A portion reaches the client. -/
  | arrive {s : Conversation ρ} {portion bs : Bytes} :
      s.down = portion ++ bs → portion ≠ [] →
      Step text s { s with down := bs, client := receive s.client portion }
  /-- The parent meets the end. -/
  | finish {s : Conversation ρ} :
      s.activity = .closed → s.up = [] → s.finished = false →
      Step text s { s with
        down := s.down ++ s.parent.takeEnd.1
        parent := s.parent.takeEnd.2
        finished := true }

/-- The states that a conversation can come to. -/
abbrev Reaches (text : Bytes) : Conversation ρ → Conversation ρ → Prop :=
  Relation.ReflTransGen (Step text)

/-! ## Every conversation ends -/

/-- What every step makes less: what is still to be done, and then what is on its way. -/
def measure (s : Conversation ρ) : Nat ×ₗ Nat ×ₗ Nat :=
  toLex (s.activity.left + (if s.finished then 0 else 1), toLex (s.up.length, s.down.length))

theorem Step.measure_lt {text : Bytes} {s s' : Conversation ρ} (h : Step text s s') :
    s'.measure < s.measure := by
  simp only [measure, Prod.Lex.toLex_lt_toLex]
  cases h with
  | ask hactivity =>
      left
      rw [hactivity]
      simp only [Activity.left, List.length_cons]
      omega
  | resume hactivity _ =>
      left
      rw [hactivity]
      simp only [Activity.left]
      omega
  | close hactivity =>
      left
      rw [hactivity]
      simp only [Activity.left, List.length_nil]
      omega
  | hear hup _ =>
      right
      refine ⟨rfl, .inl ?_⟩
      rw [hup]
      exact Nat.lt_succ_self _
  | arrive hdown hportion =>
      right
      refine ⟨rfl, .inr ⟨rfl, ?_⟩⟩
      rw [hdown, List.length_append]
      exact Nat.lt_add_of_pos_left (List.length_pos_iff.mpr hportion)
  | finish _ _ hfinished =>
      left
      rw [hfinished]
      simp

/-- No conversation goes on for ever. -/
theorem wellFounded_step (text : Bytes) :
    WellFounded fun s' s : Conversation ρ ↦ Step text s s' :=
  Subrelation.wf Step.measure_lt (InvImage.wf measure wellFounded_lt)

/-! ## What the parent has heard -/

/-- The parent is where serving what it has heard leads to. -/
def Served (resolver : ρ) (s : Conversation ρ) : Prop :=
  s.parent = if s.finished then ((Server.start resolver).take s.heard).2.takeEnd.2
    else ((Server.start resolver).take s.heard).2

theorem Served.step {text : Bytes} {resolver : ρ} {s s' : Conversation ρ} (h : s.Served resolver)
    (hstep : Step text s s') : s'.Served resolver := by
  cases hstep with
  | ask _ => exact h
  | resume _ _ => exact h
  | close _ => exact h
  | hear _ hfinished =>
      rw [Served, hfinished, if_neg Bool.false_ne_true] at h
      rw [Served, hfinished, if_neg Bool.false_ne_true, Server.take_concat, h]
  | arrive _ _ => exact h
  | finish _ _ hfinished =>
      rw [Served, hfinished, if_neg Bool.false_ne_true] at h
      rw [Served, if_pos rfl, h]

theorem Served.reaches {text : Bytes} {resolver : ρ} {s s' : Conversation ρ}
    (h : s.Served resolver) (hs : Reaches text s s') : s'.Served resolver := by
  induction hs with
  | refl => exact h
  | tail _ hstep ih => exact ih.step hstep

/-! ## The points that a conversation comes to -/

/-- What calls should come to. -/
def replies (resolver : ρ) (rs : List Request) : List (Except BridgeError Response) :=
  rs.map fun r ↦ .ok (answer r resolver).1

/-- The point that a conversation has come to. -/
inductive Stage (resolver : ρ) (requests : List Request) (text : Bytes) :
    Conversation ρ → Prop where
  /-- All calls that have been made have returned. -/
  | between (answered : List Request) {todo : List Request} {client : Client PipeEnds} {heard : Bytes} :
      requests = answered ++ todo → Ready client [] →
      Stage resolver requests text
        ⟨.asking todo, client, replies resolver answered, [], [], heard,
          ⟨afterAll answered resolver, .requests [], answered.length⟩, false⟩
  /-- Part of the line of a request is on its way. -/
  | asked {answered todo : List Request} {r : Request} {client : Client PipeEnds}
      (before : Bytes) {up heard : Bytes} :
      requests = answered ++ r :: todo → Ready client [] →
      before ++ up = r.text ++ [lineFeed] → up ≠ [] →
      Stage resolver requests text
        ⟨.waiting r todo, client, replies resolver answered, up, [], heard,
          ⟨afterAll answered resolver, .requests before.reverse, answered.length⟩, false⟩
  /-- Part of the frame of an answer has come down. -/
  | answered {answered todo : List Request} {r : Request} {client : Client PipeEnds}
      {arrived down heard : Bytes} :
      requests = answered ++ r :: todo → Ready client arrived →
      arrived ++ down = (answer r (afterAll answered resolver)).1.encode →
      Stage resolver requests text
        ⟨.waiting r todo, client, replies resolver answered, [], down, heard,
          ⟨afterAll (answered ++ [r]) resolver, .requests [], answered.length + 1⟩, false⟩
  /-- Part of the marker, and all of the output, is on its way. -/
  | announced {client : Client PipeEnds} (before : Bytes) {tag heard : Bytes} :
      before ++ tag = outputTag →
      Stage resolver requests text
        ⟨.closed, client, replies resolver requests,
          tag ++ lineFeed :: Response.contentsFrame text, [], heard,
          ⟨afterAll requests resolver, .requests before.reverse, requests.length⟩, false⟩
  /-- Part of the output is on its way. -/
  | writing {client : Client PipeEnds} (before : Bytes) {up heard : Bytes} :
      before ++ up = Response.contentsFrame text →
      Stage resolver requests text
        ⟨.closed, client, replies resolver requests, up, [], heard,
          ⟨afterAll requests resolver, .output before.reverse, requests.length⟩, false⟩
  /-- The parent has all of the output. -/
  | ended {client : Client PipeEnds} {heard : Bytes} :
      Stage resolver requests text
        ⟨.closed, client, replies resolver requests, [], [], heard,
          ⟨afterAll requests resolver, .output (Response.contentsFrame text).reverse,
            requests.length⟩, true⟩

section Stage

variable {resolver : ρ} {requests : List Request} {text : Bytes} {s s' : Conversation ρ}

theorem stage_start : Stage resolver requests text (start resolver requests) :=
  .between [] rfl ⟨rfl, rfl, rfl, .nil _, rfl⟩

/-- No call comes to anything but what it should. -/
theorem Stage.results_prefix (h : Stage resolver requests text s) :
    s.results <+: replies resolver requests := by
  have hsplit : ∀ answered todo, requests = answered ++ todo →
      replies resolver answered <+: replies resolver requests := by
    rintro answered todo rfl
    rw [replies, replies, List.map_append]
    exact List.prefix_append _ _
  cases h with
  | between _ h _ => exact hsplit _ _ h
  | asked _ h _ _ _ => exact hsplit _ _ h
  | answered h _ _ => exact hsplit _ _ h
  | announced _ _ => exact List.prefix_rfl
  | writing _ _ => exact List.prefix_rfl
  | ended => exact List.prefix_rfl

section Preserved

variable (hfixed : FixedAnswers resolver)
  (hpaths : ∀ r ∈ requests, lineFeed ∉ bytesOf r.path)
  (hcountable : ∀ r ∈ requests, (answer r resolver).1.Countable)
include hfixed hpaths hcountable

/-- A step leads from one stage to another. -/
theorem Stage.step (h : Stage resolver requests text s) (hstep : Step text s s') :
    Stage resolver requests text s' := by
  cases h with
  | @between answered todo client heard hsplit hready =>
      cases hstep with
      | @ask r todo hactivity =>
          cases hactivity
          have hpath := hpaths r (by simp [hsplit])
          refine .asked [] hsplit hready ?_ ?_
          · simp [hready.written_request hpath]
          · simp [hready.written_request hpath]
      | close hactivity =>
          cases hactivity
          rw [List.append_nil] at hsplit
          subst hsplit
          exact .announced [] rfl
      | _ => simp_all
  | @asked answered todo r client before up heard hsplit hready hline hup =>
      cases hstep with
      | @hear b up' hcons _ =>
          obtain rfl : up = b :: up' := hcons
          have hpath := hpaths r (by simp [hsplit])
          rcases Server.takeByte_line (afterAll answered resolver) answered.length hpath hline with
            ⟨hup', htake⟩ | ⟨rfl, htake⟩
          · rw [htake]
            exact .asked _ hsplit hready (by simpa using hline) hup'
          · rw [htake, ← afterAll_concat]
            exact .answered hsplit hready rfl
      | resume hactivity hreturn =>
          -- Nothing has come down yet, so the call still waits.
          cases hactivity
          have hr : r ∈ requests := by simp [hsplit]
          have hframe := frame_answer (hcountable r hr)
          exact absurd (hready.waits (hpaths r hr) hframe List.nil_prefix hframe.ne_nil.symm)
            hreturn
      | _ => simp_all
  | @answered answered todo r client arrived down heard hsplit hready hframe =>
      have hr : r ∈ requests := by simp [hsplit]
      have hanswer : (answer r (afterAll answered resolver)).1 = (answer r resolver).1 :=
        hfixed answered r
      have hresponse := frame_answer (hcountable r hr)
      rw [hanswer] at hframe
      cases hstep with
      | resume hactivity hreturn =>
          -- The call returns exactly when the whole frame has come down.
          cases hactivity
          by_cases hall : arrived = (answer r resolver).1.encode
          · subst hall
            obtain ⟨hresult, hnext⟩ := hready.answered (hpaths r hr) hresponse
            obtain rfl : down = [] := by simpa using hframe
            rw [hresult]
            have hreplies : replies resolver answered ++ [.ok (answer r resolver).1] =
                replies resolver (answered ++ [r]) := by simp [replies]
            have hlength : answered.length + 1 = (answered ++ [r]).length := by simp
            rw [hreplies, hlength]
            exact .between _ (by simpa using hsplit) hnext
          · exact absurd (hready.waits (hpaths r hr) hresponse ⟨down, hframe⟩ hall) hreturn
      | @arrive portion bs hdown hportion =>
          obtain rfl : down = portion ++ bs := hdown
          refine .answered hsplit (hready.receive portion) ?_
          rw [hanswer, List.append_assoc]
          exact hframe
      | _ => simp_all
  | @announced client before tag heard htag =>
      cases hstep with
      | @hear b up' hcons _ =>
          -- The byte is the line feed behind the marker, or one within it.
          cases tag with
          | nil =>
              obtain ⟨rfl, rfl⟩ := List.cons.inj hcons
              rw [List.append_nil] at htag
              subst htag
              rw [Server.takeByte_marker]
              exact .writing [] rfl
          | cons c tag =>
              obtain ⟨rfl, rfl⟩ := List.cons.inj hcons
              have hb : c ≠ lineFeed := by
                rintro rfl
                exact lineFeed_notMem_outputTag (htag ▸ by simp)
              rw [Server.takeByte_within _ _ _ hb, ← List.reverse_concat]
              exact .announced _ (by simpa using htag)
      | _ => simp_all
  | @writing client before up heard hup =>
      cases hstep with
      | @hear b up' hcons _ =>
          obtain rfl : up = b :: up' := hcons
          rw [Server.takeByte_output, ← List.reverse_concat]
          exact .writing _ (by simpa using hup)
      | finish _ hnil _ =>
          obtain rfl : up = [] := hnil
          rw [List.append_nil] at hup
          subst hup
          exact .ended
      | _ => simp_all
  | ended =>
      cases hstep <;> simp_all

theorem Stage.reaches (h : Stage resolver requests text s) (hs : Reaches text s s') :
    Stage resolver requests text s' := by
  induction hs with
  | refl => exact h
  | tail _ hstep ih => exact ih.step hfixed hpaths hcountable hstep

/-- As long as the parent has not met the end, something can happen. -/
theorem Stage.progress (h : Stage resolver requests text s) (hfinished : s.finished = false) :
    ∃ s', Step text s s' := by
  cases h with
  | @between answered todo client heard _ _ =>
      cases todo with
      | nil => exact ⟨_, .close rfl⟩
      | cons r todo => exact ⟨_, .ask rfl⟩
  | @asked answered todo r client before up heard _ _ _ hup =>
      obtain ⟨b, up, rfl⟩ := List.exists_cons_of_ne_nil hup
      exact ⟨_, .hear rfl rfl⟩
  | @answered answered todo r client arrived down heard hsplit hready hframe =>
      by_cases hdown : down = []
      · have hr : r ∈ requests := by simp [hsplit]
        rw [hdown, List.append_nil, hfixed answered r] at hframe
        subst hframe
        obtain ⟨hresult, -⟩ := hready.answered (hpaths r hr) (frame_answer (hcountable r hr))
        refine ⟨_, .resume rfl ?_⟩
        rw [hresult]
        exact fun h ↦ nomatch h
      · exact ⟨_, .arrive (List.append_nil _).symm hdown⟩
  | @announced client before tag heard _ =>
      cases tag with
      | nil => exact ⟨_, .hear rfl rfl⟩
      | cons b tag => exact ⟨_, .hear rfl rfl⟩
  | @writing client before up heard _ =>
      cases up with
      | nil => exact ⟨_, .finish rfl rfl rfl⟩
      | cons b up => exact ⟨_, .hear rfl rfl⟩
  | ended => cases hfinished

end Preserved

/-- When the parent has met the end, all calls have returned and the output is there. -/
theorem Stage.complete (htext : text.length < Nat.pow 2 63) (h : Stage resolver requests text s)
    (hfinished : s.finished = true) :
    s.results = replies resolver requests ∧
      s.parent.result = .ok ⟨some text, requests.length⟩ := by
  cases h with
  | ended =>
      refine ⟨rfl, ?_⟩
      rw [Server.result]
      dsimp only
      rw [List.reverse_reverse, Server.outputOf_contentsFrame htext]
      rfl
  | _ => cases hfinished

end Stage

/-! ## The two ends agree -/

/-- Whatever order bytes are delivered in, a conversation comes to an end; no call ever comes to
anything but the answer to its own request; and at the end all calls have returned, and serving what
the parent has heard gives the output and the number of requests. -/
theorem ends_agree {resolver : ρ} (hfixed : FixedAnswers resolver) {requests : List Request}
    (hpaths : ∀ r ∈ requests, lineFeed ∉ bytesOf r.path)
    (hcountable : ∀ r ∈ requests, (answer r resolver).1.Countable) {text : String}
    (htext : (bytesOf text).length < Nat.pow 2 63) :
    (WellFounded fun s' s : Conversation ρ ↦ Step (bytesOf text) s s') ∧
      ∀ s, Reaches (bytesOf text) (start resolver requests) s →
        s.results <+: requests.map (fun r ↦ .ok (answer r resolver).1) ∧
          ((∀ s', ¬ Step (bytesOf text) s s') →
            s.results = requests.map (fun r ↦ .ok (answer r resolver).1) ∧
              (serve resolver s.heard).1 = .ok ⟨some (bytesOf text), requests.length⟩) := by
  refine ⟨wellFounded_step _, fun s hs ↦ ?_⟩
  have hstage : Stage resolver requests (bytesOf text) s :=
    stage_start.reaches hfixed hpaths hcountable hs
  have hserved : s.Served resolver :=
    Served.reaches (s := start resolver requests) rfl hs
  refine ⟨hstage.results_prefix, fun hstuck ↦ ?_⟩
  have hfinished : s.finished = true := by
    rw [← Bool.not_eq_false]
    intro hfinished
    obtain ⟨s', hstep⟩ := hstage.progress hfixed hpaths hcountable hfinished
    exact hstuck s' hstep
  obtain ⟨hresults, hresult⟩ := hstage.complete htext hfinished
  refine ⟨hresults, ?_⟩
  rw [Served, hfinished, if_pos rfl] at hserved
  rw [hserved] at hresult
  exact hresult

/-- A file with a line feed and a tag in it, and one that is not there. -/
theorem ends_agree_taggedFile :
    let files : Table Bytes := .ofList [("a", bytesOf "\nSRCBRIDGE_OUTPUT\n")]
    let requests : List Request := [⟨.contents, "a"⟩, ⟨.presence, "b"⟩]
    FixedAnswers files ∧
      (∀ r ∈ requests, lineFeed ∉ bytesOf r.path) ∧
      (∀ r ∈ requests, (answer r files).1.Countable) ∧
      (bytesOf "1 ").length < Nat.pow 2 63 ∧
      ∀ s, Reaches (bytesOf "1 ") (start files requests) s →
        (∀ s', ¬ Step (bytesOf "1 ") s s') →
          s.results = [.ok (.contents (bytesOf "\nSRCBRIDGE_OUTPUT\n")), .ok (.presence false)] ∧
            (serve files s.heard).1 = .ok ⟨some (bytesOf "1 "), 2⟩ := by
  intro files requests
  have hpaths : ∀ r ∈ requests, lineFeed ∉ bytesOf r.path := by decide
  have hcountable : ∀ r ∈ requests, (answer r files).1.Countable := by
    simp only [requests, List.forall_mem_cons]
    exact ⟨show (bytesOf "\nSRCBRIDGE_OUTPUT\n").length < Nat.pow 2 63 by decide, trivial, by simp⟩
  have htext : (bytesOf "1 ").length < Nat.pow 2 63 := by decide
  refine ⟨fixedAnswers_table files, hpaths, hcountable, htext, fun s hs hstuck ↦ ?_⟩
  exact ((ends_agree (fixedAnswers_table files) hpaths hcountable htext).2 s hs).2 hstuck

end Conversation

end PipedCompiler.Parent
