import PipedCompiler.Proofs.Compile.Source
import PipedCompiler.Proofs.Compile.Host

/-!
# What a host keeps to

Between the calls of a host its files may change, and its source may fail.  What a host has read it
keeps to, and also that there is no file.  But a host that is only told that there is a file does
not remember it, and may say otherwise when it asks again.
-/

namespace PipedCompiler.Compile

open PipedCompiler.Text PipedCompiler.Bridge

/-! ## Calls -/

/-- What can be asked of a host. -/
inductive Inquiry where
  | presence (path : String)
  | text (path : String)
  | source (path : String) (target : LanguageTarget)

/-- What a host answers. -/
inductive Reply where
  | presence (found : Bool)
  | text (text : Option (List Char))
  | source (file : Option SourceFile)
  deriving DecidableEq

namespace Inquiry

/-- What is asked about. -/
def path : Inquiry → String
  | .presence path => path
  | .text path => path
  | .source path _ => path

/-- Asks a host. -/
def ask : Inquiry → Hosted Reply
  | .presence path => .presence <$> Host.exists? path
  | .text path => .text <$> Host.load path
  | .source path target => .source <$> Host.sourceFile path target

/-- The right answer, given what the file reads; `none` if there is no such file. -/
def replyFor : Inquiry → Option (List Char) → Reply
  | .presence _, file => .presence file.isSome
  | .text _, file => .text file
  | .source path target, file => .source (file.map fun chars ↦ ⟨path, chars, target⟩)

end Inquiry

namespace Host

variable {β : Type} [Source β]

/-- A call of a host while its source is in some state.  A call that fails leaves the host as it
was. -/
def call (h : Host) (i : Inquiry) (b : β) : Except BridgeError Reply × Host :=
  match (i.ask.run h).runOver b with
  | (.ok (reply, h), _) => (.ok reply, h)
  | (.error e, _) => (.error e, h)

/-- Calls one after the other, with what has been answered.  At each of them the source may be in
any state. -/
def calls : List (Inquiry × β) → Host → List (Inquiry × Except BridgeError Reply)
  | [], _ => []
  | (i, b) :: cs, h => (i, (h.call i b).1) :: calls cs (h.call i b).2

/-! ## What one call does -/

/-- What a call of a host can answer, and what becomes of the host. -/
inductive Called (h : Host) (i : Inquiry) : Except BridgeError Reply → Host → Prop
  /-- The host knows about the path already. -/
  | known {file : Option (List Char)} (hknown : h.known.get? i.path = some file) :
    Called h i (.ok (i.replyFor file)) h
  /-- The host learns about the path. -/
  | learnt {file : Option (List Char)} {h' : Host} (hnew : h.known.get? i.path = none)
    (hoptions : h'.options = h.options) (hlearnt : h'.known = h.known.insert i.path file) :
    Called h i (.ok (i.replyFor file)) h'
  /-- The host is told that there is a file, and learns nothing else. -/
  | told (hnew : h.known.get? i.path = none) (hasks : h.options.asksExistence = true) :
    Called h i (.ok (.presence true)) h
  | failed (hnew : h.known.get? i.path = none) (e : BridgeError) : Called h i (.error e) h

variable {h : Host} {i : Inquiry}

theorem ask_known {file : Option (List Char)} (hknown : h.known.get? i.path = some file) :
    i.ask.run h = .done (i.replyFor file, h) := by
  cases i with
  | presence path =>
      rw [Inquiry.path] at hknown
      rw [Inquiry.ask, StateT.run_map, exists_known hknown]
      rfl
  | text path =>
      rw [Inquiry.path] at hknown
      rw [Inquiry.ask, StateT.run_map, load_known hknown]
      rfl
  | source path target =>
      rw [Inquiry.path] at hknown
      rw [Inquiry.ask, StateT.run_map, sourceFile, StateT.run_bind, load_known hknown]
      rfl

/-- What is not known is read, unless the parent is asked just whether it is there. -/
theorem ask_new (hnew : h.known.get? i.path = none) :
    (i.ask.run h = .contents i.path fun reply ↦
      .done (i.replyFor (reply.map textOf), h.hear i.path reply)) ∨
    h.options.asksExistence = true ∧ i = .presence i.path ∧
      i.ask.run h = .presence i.path fun found ↦
        .done (.presence found, if found then h else h.hear i.path none) := by
  cases i with
  | presence path =>
      rw [Inquiry.path] at hnew ⊢
      rw [Inquiry.ask, StateT.run_map, exists_new hnew]
      split
      · next hasks => exact .inr ⟨hasks, rfl, rfl⟩
      · refine .inl ?_
        simp [Inquiry.replyFor]
  | text path =>
      rw [Inquiry.path] at hnew ⊢
      rw [Inquiry.ask, StateT.run_map, load_new hnew]
      exact .inl rfl
  | source path target =>
      rw [Inquiry.path] at hnew ⊢
      rw [Inquiry.ask, StateT.run_map, sourceFile, StateT.run_bind, load_new hnew]
      exact .inl rfl

theorem called_call (h : Host) (i : Inquiry) (b : β) :
    Called h i (h.call i b).1 (h.call i b).2 := by
  rw [call]
  cases hknown : h.known.get? i.path with
  | some file =>
      rw [ask_known hknown]
      exact .known hknown
  | none =>
      rcases ask_new hknown with hask | ⟨hasks, hi, hask⟩
      · rw [hask, Dialogue.runOver]
        rcases Source.contents i.path b with ⟨e | reply, b'⟩
        · exact .failed hknown e
        · exact .learnt hknown rfl rfl
      · rw [hask, Dialogue.runOver]
        rcases Source.presence i.path b with ⟨e | found, b'⟩
        · exact .failed hknown e
        · cases found with
          | true => exact .told hknown hasks
          | false =>
              have hreply : i.replyFor none = .presence false := by rw [hi, Inquiry.replyFor]; rfl
              show Called h i (.ok (.presence false)) (h.hear i.path none)
              rw [← hreply]
              exact .learnt hknown rfl rfl

namespace Called

variable {r : Except BridgeError Reply} {h' : Host}

theorem options (hc : Called h i r h') : h'.options = h.options := by
  cases hc with
  | known hknown => rfl
  | learnt hnew hoptions hlearnt => exact hoptions
  | told hnew hasks => rfl
  | failed hnew e => rfl

/-- A host does not unlearn. -/
theorem keeps (hc : Called h i r h') {path : String} {file : Option (List Char)}
    (hknown : h.known.get? path = some file) : h'.known.get? path = some file := by
  cases hc with
  | known => exact hknown
  | told => exact hknown
  | failed => exact hknown
  | learnt hnew hoptions hlearnt =>
      rw [hlearnt, Table.get?_insert, if_neg, hknown]
      rintro rfl
      rw [hnew] at hknown
      cases hknown

/-- What a host does not know after a call it did not know before. -/
theorem unknown (hc : Called h i r h') {path : String} (hnew : h'.known.get? path = none) :
    h.known.get? path = none := by
  cases hknown : h.known.get? path with
  | none => rfl
  | some file =>
      rw [hc.keeps hknown] at hnew
      cases hnew

/-- An answer is right about what the host knows from then on, unless the host was only told that
there is a file. -/
theorem reply_cases {reply : Reply} (hc : Called h i (.ok reply) h') :
    (∃ file, h'.known.get? i.path = some file ∧ reply = i.replyFor file) ∨
      h.known.get? i.path = none ∧ h.options.asksExistence = true ∧ reply = .presence true := by
  cases hc with
  | known hknown => exact .inl ⟨_, hknown, rfl⟩
  | learnt _ _ hlearnt =>
      refine .inl ⟨_, ?_, rfl⟩
      rw [hlearnt, Table.get?_insert, if_pos rfl]
  | told hnew hasks => exact .inr ⟨hnew, hasks, rfl⟩

end Called

/-! ## What all calls say -/

/-- Whether what has been said about a path may be taken back: that there is a file, or nothing. -/
def Tentative : Except BridgeError Reply → Prop
  | .ok reply => reply = .presence true
  | .error _ => True

/-- What a host has just said about a path that it knows nothing about is tentative. -/
theorem Called.tentative {r : Except BridgeError Reply} {h' : Host} (hc : Called h i r h')
    (hnew : h'.known.get? i.path = none) : Tentative r := by
  cases r with
  | error e => trivial
  | ok reply =>
      rcases hc.reply_cases with ⟨file, hknown, -⟩ | ⟨-, -, hreply⟩
      · rw [hnew] at hknown
        cases hknown
      · exact hreply

/-- What a host says is right about what it knows in the end, except where it says that there is a
file and has said nothing else about that path so far. -/
theorem calls_view (cs : List (Inquiry × β)) (h : Host) :
    ∃ view : String → Option (List Char),
      (∀ path file, h.known.get? path = some file → view path = file) ∧
      ∀ before i reply after, calls cs h = before ++ (i, .ok reply) :: after →
        reply = i.replyFor (view i.path) ∨
          h.known.get? i.path = none ∧ h.options.asksExistence = true ∧ reply = .presence true ∧
            ∀ entry ∈ before, entry.1.path = i.path → Tentative entry.2 := by
  induction cs generalizing h with
  | nil =>
      refine ⟨fun path ↦ (h.known.get? path).join, ?_, ?_⟩
      · intro path file hknown
        show (h.known.get? path).join = file
        rw [hknown]
        rfl
      · intro before i reply after hcalls
        cases (List.append_eq_nil_iff.mp hcalls.symm).2
  | cons c cs ih =>
      obtain ⟨i₀, b⟩ := c
      have hcalled := called_call h i₀ b
      rw [calls]
      generalize (h.call i₀ b).1 = r at hcalled ⊢
      generalize (h.call i₀ b).2 = h' at hcalled ⊢
      obtain ⟨view, hview, hlater⟩ := ih h'
      refine ⟨view, fun path file hknown ↦ hview path file (hcalled.keeps hknown), ?_⟩
      rintro (_ | ⟨entry, before⟩) i reply after heq
      · obtain ⟨hfirst, -⟩ := List.cons.inj heq
        obtain ⟨rfl, rfl⟩ := Prod.mk.inj hfirst
        rcases hcalled.reply_cases with ⟨file, hknown, hreply⟩ | ⟨hnew, hasks, hreply⟩
        · rw [hview _ _ hknown]
          exact .inl hreply
        · exact .inr ⟨hnew, hasks, hreply, nofun⟩
      · obtain ⟨rfl, hrest⟩ := List.cons.inj heq
        rcases hlater before i reply after hrest with hreply | ⟨hnew, hasks, hreply, hbefore⟩
        · exact .inl hreply
        · rw [hcalled.options] at hasks
          refine .inr ⟨hcalled.unknown hnew, hasks, hreply, ?_⟩
          rintro entry (_ | ⟨_, hentry⟩) hpath
          · exact hcalled.tentative (hpath ▸ hnew)
          · exact hbefore entry hentry hpath

/-- All that a host says fits one view of its files, whatever becomes of them meanwhile, except
where a parent that can be asked whether a file exists says yes, and nothing else has been said
about the path so far. -/
theorem calls_consistent (cs : List (Inquiry × β)) (h : Host) :
    ∃ view : String → Option (List Char),
      ∀ before i reply after, calls cs h = before ++ (i, .ok reply) :: after →
        reply = i.replyFor (view i.path) ∨
          h.options.asksExistence = true ∧ reply = .presence true ∧
            ∀ entry ∈ before, entry.1.path = i.path → Tentative entry.2 := by
  obtain ⟨view, -, hview⟩ := calls_view cs h
  refine ⟨view, fun before i reply after hcalls ↦ ?_⟩
  rcases hview before i reply after hcalls with hreply | ⟨-, htentative⟩
  · exact .inl hreply
  · exact .inr htentative

/-- What a host has been told is there may be gone when it asks again. -/
theorem calls_inconsistent :
    ¬ ∃ view : String → Option (List Char),
      ∀ i reply, (i, .ok reply) ∈ calls
        [(.presence "a.ts", (⟨.ofList [("a.ts", bytesOf "let x = 1")], none, []⟩ : Shelf)),
          (.presence "a.ts", ⟨.empty, none, []⟩)] (.start {}) →
        reply = i.replyFor (view i.path) := by
  rintro ⟨view, hview⟩
  have hyes := hview (.presence "a.ts") (.presence true) (.head _)
  have hno := hview (.presence "a.ts") (.presence false) (.tail _ (.head _))
  cases hyes.trans hno.symm

end Host

end PipedCompiler.Compile
