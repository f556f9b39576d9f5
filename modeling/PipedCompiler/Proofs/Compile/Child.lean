import PipedCompiler.Compile.Child
import PipedCompiler.Proofs.Compile.Unsendable
import PipedCompiler.Proofs.Compile.Verdict
import PipedCompiler.Proofs.Worker.Compiler

/-!
# What a parent makes of a compiler process

A compiler process and the parent that serves it have one channel for requests and for the output.
They stay in step: each request is counted once at either end, and the parent is back at the start
of a line whenever the process goes on.  So the output is what the parent takes for it, and a
process that fails leaves none.
-/

namespace PipedCompiler.Compile

open PipedCompiler.Text PipedCompiler.Bridge PipedCompiler.Parent PipedCompiler.Worker

/-! ## Both ends in step -/

/-- Whether an outlet leads to a parent that serves these files and has heard all that has been
written so far: what the parent writes back comes down, in whatever portions. -/
def Attended {σ : Type} [Outlet σ] (files : Table Bytes) (heard : σ → Bytes) : Prop :=
  ∀ (line : Bytes) (outlet : σ), ∃ ds outlet', Outlet.send line outlet = (.ok ds, outlet') ∧
    heard outlet' = heard outlet ++ line ∧
    ∀ ending, Stream.Brings ⟨ds, ending⟩
      (((Server.start files).take (heard outlet)).2.take line).1 (.spent ending)

/-- Whether a client between calls, with nothing left to read, and the parent that has heard it are
in step: the parent waits for a line, and has answered as many requests as the client has counted. -/
structure InStep {σ : Type} (files : Table Bytes) (heard : σ → Bytes) (c : Client σ) : Prop where
  poisoned : c.poisoned = false
  stream : ∃ ending, c.stream.Brings [] (.spent ending)
  parent : ((Server.start files).take (heard c.outlet)).2 = ⟨files, .requests [], c.roundTrips⟩

/-- A client that has not been used is in step with a parent that has heard nothing. -/
theorem inStep_start {σ : Type} {heard : σ → Bytes} (files : Table Bytes) {outlet : σ}
    (houtlet : heard outlet = []) (ending : Bridge.Ending) :
    InStep files heard (.start ⟨[], ending⟩ outlet) where
  poisoned := rfl
  stream := ⟨ending, .nil _⟩
  parent := by
    show ((Server.start files).take (heard outlet)).2 = _
    rw [houtlet]
    rfl

/-- What holds of a source holds of it after a dialogue, if no question changes that. -/
theorem runOver_keeps {α β : Type} [Source β] {P : β → Prop}
    (hcontents : ∀ path b, P b → P (Source.contents path b).2)
    (hpresence : ∀ path b, P b → P (Source.presence path b).2) (d : Dialogue α) {b : β} (hb : P b) :
    P (d.runOver b).2 := by
  induction d generalizing b with
  | done a => exact hb
  | contents path next ih =>
      have hask := hcontents path b hb
      rw [Dialogue.runOver]
      rcases hreply : Source.contents path b with ⟨e | reply, b'⟩
      · rwa [hreply] at hask
      · rw [hreply] at hask
        exact ih reply hask
  | presence path next ih =>
      have hask := hpresence path b hb
      rw [Dialogue.runOver]
      rcases hreply : Source.presence path b with ⟨e | reply, b'⟩
      · rwa [hreply] at hask
      · rw [hreply] at hask
        exact ih reply hask

theorem Client.snd_contents {σ : Type} [Outlet σ] (path : String) (c : Client σ) :
    (Source.contents path c).2 = (c.request ⟨.contents, path⟩).2 := by
  show (c.readContents path).2 = _
  rw [Client.readContents]
  rcases c.request ⟨.contents, path⟩ with ⟨e | response, c'⟩
  · rfl
  · cases response <;> rfl

theorem Client.snd_presence {σ : Type} [Outlet σ] (path : String) (c : Client σ) :
    (Source.presence path c).2 = (c.request ⟨.presence, path⟩).2 := by
  show (c.readPresence path).2 = _
  rw [Client.readPresence]
  rcases c.request ⟨.presence, path⟩ with ⟨e | response, c'⟩
  · rfl
  · cases response <;> rfl

section Client

variable {σ : Type} {files : Table Bytes} {heard : σ → Bytes} {c : Client σ}

/-- Whether the parent that has heard what has been written waits for a line. -/
def Waiting (files : Table Bytes) (heard : σ → Bytes) (outlet : σ) : Prop :=
  ∃ n, ((Server.start files).take (heard outlet)).2 = ⟨files, .requests [], n⟩

theorem InStep.idle (hc : InStep files heard c) : Idle (Waiting files heard) c :=
  ⟨hc.poisoned, hc.stream, ⟨c.roundTrips, hc.parent⟩⟩

/-- What comes of serving a process that writes nothing more. -/
theorem InStep.serve_nothing (hc : InStep files heard c) :
    (serve files (heard c.outlet ++ [])).1 = .ok ⟨none, c.roundTrips⟩ := by
  rw [List.append_nil, serve]
  dsimp only
  rw [hc.parent]
  rfl

/-- What comes of serving a process that writes its output. -/
theorem InStep.serve_output (hc : InStep files heard c) {text : Bytes}
    (htext : text.length < Nat.pow 2 63) :
    (serve files (heard c.outlet ++ encodeOutput text)).1 = .ok ⟨some text, c.roundTrips⟩ := by
  rw [serve, Server.take_append]
  dsimp only
  rw [hc.parent, Server.take_encodeOutput]
  show (Server.outputOf (Response.contentsFrame text).reverse.reverse).map _ = _
  rw [List.reverse_reverse, Server.outputOf_contentsFrame htext]
  rfl

variable [Outlet σ]

/-- A parent that waits for a line answers a request and waits for the next line. -/
theorem Attended.request (hparent : Attended files heard) {r : Request} {line : Bytes}
    (hline : r.encode = .ok line) {outlet : σ} {n : Nat}
    (hwaiting : ((Server.start files).take (heard outlet)).2 = ⟨files, .requests [], n⟩) :
    ∃ ds outlet', Outlet.send line outlet = (.ok ds, outlet') ∧
      ((Server.start files).take (heard outlet')).2 = ⟨files, .requests [], n + 1⟩ ∧
      ∀ ending, Stream.Brings ⟨ds, ending⟩ (answer r files).1.encode (.spent ending) := by
  obtain ⟨ds, outlet', hsend, hheard, hbrings⟩ := hparent line outlet
  have htake := Server.take_request files n hline
  rw [answer_table] at htake
  rw [hwaiting, htake] at hbrings
  refine ⟨ds, outlet', hsend, ?_, hbrings⟩
  rw [hheard, Server.take_append, hwaiting, htake]

theorem Attended.answersFrom (hparent : Attended files heard) :
    AnswersFrom files (Waiting files heard) := by
  rintro r line outlet ⟨n, hwaiting⟩ hline
  obtain ⟨ds, outlet', hsend, hwaiting', hbrings⟩ := hparent.request hline hwaiting
  exact ⟨ds, outlet', hsend, ⟨n + 1, hwaiting'⟩, hbrings⟩

/-- A request is counted at both ends; one that cannot be sent is counted at neither. -/
theorem InStep.request (hc : InStep files heard c) (hparent : Attended files heard)
    (hcountable : Countable files) (r : Request) : InStep files heard (c.request r).2 := by
  by_cases hpath : lineFeed ∈ bytesOf r.path
  · rw [hc.idle.request_unsendable hpath]
    exact hc
  · have hline := Request.encode_eq hpath
    obtain ⟨ending, hstream⟩ := hc.stream
    obtain ⟨ds, outlet, hsend, hwaiting, hbrings⟩ := hparent.request hline hc.parent
    have hall : (c.stream.append ds).Brings ((answer r files).1.encode ++ []) (.spent ending) := by
      rw [List.append_nil]
      exact (hstream.append ds).trans (hbrings ending)
    obtain ⟨stream, hrest, hrequest⟩ := Client.request_answered hc.poisoned hline hsend
      (frame_answer (hcountable.answer r)) hall
    rw [hrequest]
    exact ⟨hc.poisoned, ⟨ending, hrest⟩, hwaiting⟩

/-- A compile leaves both ends in step. -/
theorem InStep.compileOver (hc : InStep files heard c) (hparent : Attended files heard)
    (hcountable : Countable files) (options : CompileOptions) (depth : Nat) (root : String) :
    InStep files heard (Compile.compileOver options depth root c).2 := by
  rw [compileOver_eq]
  refine runOver_keeps (fun path c hc ↦ ?_) (fun path c hc ↦ ?_) _ hc
  · rw [Client.snd_contents]
    exact hc.request hparent hcountable _
  · rw [Client.snd_presence]
    exact hc.request hparent hcountable _

end Client

/-! ## How a process ends -/

/-- A compile that fails over a bridge that holds has something to say. -/
theorem reported_ne_nil {files : String → Option Bytes} {options : CompileOptions} {depth : Nat}
    {root : String} {compiled : Compiled} {e : CompileError}
    (hrun : (compile options depth root).run files = .ok compiled)
    (he : (compiled.bridged root).result = .error e) : (compiled.bridged root).reported ≠ [] := by
  obtain ⟨t, host, -, -, -, rfl⟩ := walk_of_run_compile hrun
  obtain ⟨-, hreported, hshown⟩ :=
    ((Program.ofTrail files options root t).verdict_conclusion options host.diagnostics).failed e he
  exact hreported.trans_ne hshown

/-- Whether a process that has compiled something and its parent agree on what has come of it: the
exit code tells what the parent finds, and the parent has answered what the process has asked. -/
inductive Agreed (files : Table Bytes) (heard : Bytes) (roundTrips : Nat) :
    BridgedCompile → Prop
  | output {compiled : BridgedCompile} {output : CompileOutput}
      (result : compiled.result = .ok output)
      (code : (childRun none compiled).exit.code = 0)
      (served : (bytesOf output.text).length < Nat.pow 2 63 →
        (serve files (heard ++ (childRun none compiled).output)).1 =
          .ok ⟨some (bytesOf output.text), roundTrips⟩)
      (failing : ∀ step, (childRun (some step) compiled).exit.code = 2) :
      Agreed files heard roundTrips compiled
  | failed {compiled : BridgedCompile} {root : String} {ds : List Diagnostic}
      (result : compiled.result = .error (.compilationFailed root ds))
      (code : ∀ failing, (childRun failing compiled).exit.code = 1)
      (reported : (childRun none compiled).reported ≠ [])
      (served : (serve files (heard ++ (childRun none compiled).output)).1 =
        .ok ⟨none, roundTrips⟩) :
      Agreed files heard roundTrips compiled
  | broken {compiled : BridgedCompile} {e : BridgeError}
      (result : compiled.result = .error (.bridge e))
      (code : ∀ failing, (childRun failing compiled).exit.code = 2)
      (nothing : ∀ failing, (childRun failing compiled).output = [])
      (served : (serve files (heard ++ (childRun none compiled).output)).1 =
        .ok ⟨none, roundTrips⟩) :
      Agreed files heard roundTrips compiled

section Child

variable {σ : Type} [Outlet σ] {files : Table Bytes} {heard : σ → Bytes} {c : Client σ}
variable {options : CompileOptions} {depth : Nat} {root : String}

/-- A compile over a bridge to a parent that answers everything comes to something, and what it has
to say if it fails is something. -/
theorem InStep.exists_compiled (hc : InStep files heard c) (hparent : Attended files heard)
    (hcountable : Countable files) (hreadable : Loading.Readable files.get?)
    (hdepth : files.size < depth) (options : CompileOptions) (root : String) :
    ∃ compiled c', Compile.compileOver options depth root c = (.ok compiled, c') ∧
      ∀ root' ds, compiled.result = .error (.compilationFailed root' ds) →
        compiled.reported ≠ [] := by
  obtain ⟨compiled, hrun⟩ := run_compile hreadable hdepth options root
  by_cases hpaths : ∃ r ∈ (compile options depth root).requests files.get?,
      lineFeed ∈ bytesOf r.path
  · obtain ⟨r, -, -, c', hover, -⟩ :=
      hc.idle.compileOver_unsendable hparent.answersFrom hcountable hpaths
    exact ⟨_, c', hover, nofun⟩
  · have hsendable : ∀ r ∈ (compile options depth root).requests files.get?,
        lineFeed ∉ bytesOf r.path := fun r hr hpath ↦ hpaths ⟨r, hr, hpath⟩
    obtain ⟨c', hover, -⟩ :=
      hc.idle.compileOver hparent.answersFrom hcountable hrun hsendable
    exact ⟨_, c', hover, fun _ _ he ↦ reported_ne_nil hrun he⟩

/-- A compiler process and the parent that serves it agree on what has come of the compile. -/
theorem runChild_agreed (hparent : Attended files heard) (hcountable : Countable files)
    (hreadable : Loading.Readable files.get?) (hdepth : files.size < depth)
    (hc : InStep files heard c) :
    ∃ compiled c', compileOver options depth root c = (.ok compiled, c') ∧
      (∀ failing, runChild options depth failing root c =
        (.ok (childRun failing compiled), c')) ∧
      Agreed files (heard c'.outlet) c'.roundTrips compiled := by
  obtain ⟨compiled, c', hover, hreported⟩ :=
    hc.exists_compiled hparent hcountable hreadable hdepth options root
  have hc' := hc.compileOver hparent hcountable options depth root
  rw [hover] at hc'
  refine ⟨compiled, c', hover, fun failing ↦ by rw [runChild, hover]; rfl, ?_⟩
  obtain ⟨result, reported⟩ := compiled
  cases result with
  | ok output =>
      refine .output rfl rfl hc'.serve_output fun step ↦ ?_
      cases step <;> rfl
  | error e =>
      cases e with
      | compilationFailed root' ds =>
          exact .failed rfl (fun _ ↦ rfl) (hreported root' ds rfl) hc'.serve_nothing
      | bridge e => exact .broken rfl (fun _ ↦ rfl) (fun _ ↦ rfl) hc'.serve_nothing

end Child

/-- A way to a parent that serves some files: all that has been written to it. -/
structure Wire (files : Table Bytes) where
  written : Bytes

instance (files : Table Bytes) : Outlet (Wire files) where
  send line w := (.ok [.bytes (((Server.start files).take w.written).2.take line).1],
    ⟨w.written ++ line⟩)

theorem attended_wire (files : Table Bytes) : Attended files (@Wire.written files) := by
  intro line w
  refine ⟨_, _, rfl, rfl, fun ending ↦ ?_⟩
  simpa using Stream.Brings.of_portions [(((Server.start files).take w.written).2.take line).1] ending

/-- A module of which a line that is emitted looks like a request. -/
def taggedLine : Table Bytes :=
  .ofList [("a.ts", bytesOf "declare SRCBRIDGE_READFILEx\nSRCBRIDGE_READFILEx")]

/-- A client that has not asked anything yet. -/
def Wire.client (files : Table Bytes) : Client (Wire files) :=
  .start ⟨[], .closed⟩ ⟨[]⟩

theorem runChild_agreed_taggedLine :
    Attended taggedLine (@Wire.written taggedLine) ∧ Countable taggedLine ∧
      Loading.Readable taggedLine.get? ∧ taggedLine.size < 2 ∧
      InStep taggedLine Wire.written (Wire.client taggedLine) ∧
      ∃ compiled c',
        compileOver { omitsDefaultLibrary := true } 2 "a.ts" (Wire.client taggedLine) =
          (.ok compiled, c') ∧
        (∀ failing, runChild { omitsDefaultLibrary := true } 2 failing "a.ts"
          (Wire.client taggedLine) = (.ok (childRun failing compiled), c')) ∧
        Agreed taggedLine c'.outlet.written c'.roundTrips compiled := by
  have hcountable : Countable taggedLine := .of_entries (by decide +kernel)
  have hreadable : Loading.Readable taggedLine.get? := .of_entries (by decide +kernel)
  have hdepth : taggedLine.size < 2 := by decide
  have hc : InStep taggedLine Wire.written (Wire.client taggedLine) :=
    inStep_start taggedLine rfl .closed
  exact ⟨attended_wire taggedLine, hcountable, hreadable, hdepth, hc,
    runChild_agreed (attended_wire taggedLine) hcountable hreadable hdepth hc⟩

-- The line is emitted, and the parent takes it for output.
example :
    let (run, c) := runChild { omitsDefaultLibrary := true } 2 none "a.ts" (Wire.client taggedLine)
    run.toOption.map (fun run ↦ (serve taggedLine (c.outlet.written ++ run.output)).1.toOption) =
      some (some ⟨some (bytesOf "SRCBRIDGE_READFILEx;\n"), 1⟩) := by
  decide +kernel

end PipedCompiler.Compile
