import PipedCompiler.Proofs.Bridge.Alternation
import PipedCompiler.Proofs.Compile.Source
import PipedCompiler.Proofs.Parent.Library
import PipedCompiler.Proofs.Parent.Serving
import PipedCompiler.Worker.Invocation

/-!
# What a compiler process depends on

A compiler process learns about files only by asking.  So what becomes of it is decided by its task
and by what is served where the compile of the task asks: over another library that serves the same
there, the process runs just as well, and neither library can be told from what it was before.
-/

namespace PipedCompiler.Worker

open PipedCompiler.Text PipedCompiler.Bridge PipedCompiler.Parent PipedCompiler.Compile

/-- The line of a request is answered, and the next one is waited for. -/
theorem send_request {server : Server Library} (hphase : server.phase = .requests [])
    {r : Request} {line : Bytes} (hline : r.encode = .ok line) :
    Outlet.send line server = (.ok [.bytes (answer r server.resolver).1.encode],
      ⟨(answer r server.resolver).2, .requests [], server.answered + 1⟩) := by
  obtain ⟨l, phase, n⟩ := server
  obtain rfl : phase = .requests [] := hphase
  show (let (reply, server) := (⟨l, .requests [], n⟩ : Server Library).take line
    ((.ok [.bytes reply], server) : Except IoError (List Delivery) × Server Library)) = _
  rw [Server.take_request l n hline]

/-! ## Answers are what is served -/

/-- Whether nothing is on its way to a client, and its parent waits for a request and serves these
files. -/
structure Calm (files : String → Option Bytes) (c : Client (Server Library)) : Prop where
  stream : c.stream.toBytes = []
  phase : c.outlet.phase = .requests []
  served : c.outlet.resolver.served = files

section Calm

variable {files : String → Option Bytes} {c c' : Client (Server Library)}

/-- What a client gets to hear is what its parent has answered. -/
theorem Calm.asked (hc : Calm files c) {α : Type} {r : Request} {meaning : α → Response} {a : α}
    (h : Asked c r meaning (.ok a) c') :
    meaning a = (answer r c.outlet.resolver).1 ∧ Calm files c' := by
  cases h with
  | @answered _ line f ds outlet stream _ hline hsend hframe hbytes =>
      rw [send_request hc.phase hline] at hsend
      obtain ⟨hds, rfl⟩ := Prod.mk.inj hsend
      obtain rfl := Except.ok.inj hds
      have hsent : (answer r c.outlet.resolver).1.encode = f ++ stream.toBytes := by
        have hstream := hc.stream
        rw [Stream.toBytes] at hstream
        rw [← hbytes]
        simp [Stream.toBytes, Stream.append, hstream, Stream.deliveredBytes]
      rw [← kind_answer r c.outlet.resolver] at hframe
      obtain ⟨hmeaning, hrest⟩ := hframe.eq_of_encode hsent
      exact ⟨hmeaning, hrest, rfl, (c.outlet.resolver.lasts_answer r).served.trans hc.served⟩

/-- A client never gets a wrong answer, although it may get none. -/
theorem honest_calm (files : String → Option Bytes) : Honest files (Calm files) where
  contents := by
    intro path c reply c' hc hask
    have hasked := c.asked_readContents path
    rw [show c.readContents path = (.ok reply, c') from hask] at hasked
    obtain ⟨hmeaning, hc'⟩ := hc.asked hasked
    obtain ⟨_, hanswer, -⟩ := c.outlet.resolver.answer_contents path
    rw [hanswer, hc.served] at hmeaning
    refine ⟨?_, hc'⟩
    cases reply <;> cases hfile : files path <;> simp_all [Response.ofContents]
  presence := by
    intro path c reply c' hc hask
    have hasked := c.asked_readPresence path
    rw [show c.readPresence path = (.ok reply, c') from hask] at hasked
    obtain ⟨hmeaning, hc'⟩ := hc.asked hasked
    obtain ⟨_, hanswer, -⟩ := c.outlet.resolver.answer_presence path
    rw [hanswer, hc.served] at hmeaning
    exact ⟨Response.presence.inj hmeaning, hc'⟩

end Calm

/-! ## The same process over another library -/

/-- The client of a parent that is the same but for its library. -/
def withLibrary (l : Library) (c : Client (Server Library)) : Client (Server Library) :=
  { c with outlet := { c.outlet with resolver := l } }

/-- Whether a client over one library and its counterpart over another one come to the same, and
neither library can be told from what it was. -/
inductive Parallel {α : Type} (c : Client (Server Library)) (l : Library) :
    (x y : Except BridgeError α × Client (Server Library)) → Prop
  | same {result : Except BridgeError α} {c₁ : Client (Server Library)} {l₁ : Library}
      (lasts : c.outlet.resolver.Lasts c₁.outlet.resolver) (lasts' : l.Lasts l₁)
      (phase : c₁.outlet.phase = .requests []) :
      Parallel c l (result, c₁) (result, withLibrary l₁ c₁)

section Parallel

variable {c : Client (Server Library)} {l : Library} {r : Request}

theorem Parallel.refl {α : Type} (hphase : c.outlet.phase = .requests [])
    (result : Except BridgeError α) : Parallel c l (result, c) (result, withLibrary l c) :=
  .same (.refl _) (.refl l) hphase

theorem parallel_exchange (hphase : c.outlet.phase = .requests [])
    (hagree : l.served r.path = c.outlet.resolver.served r.path) :
    Parallel c l (c.exchange r) ((withLibrary l c).exchange r) := by
  cases hline : r.encode with
  | error e =>
      rw [Client.exchange, Client.exchange, hline]
      exact .refl hphase _
  | ok line =>
      have hphase' : (withLibrary l c).outlet.phase = .requests [] := hphase
      rw [Client.exchange_sent hline (send_request hphase hline),
        Client.exchange_sent hline (send_request hphase' hline)]
      have hanswer :
          (answer r (withLibrary l c).outlet.resolver).1 = (answer r c.outlet.resolver).1 :=
        Library.answer_congr hagree
      rw [hanswer]
      exact .same (Library.lasts_answer _ r) (l.lasts_answer r) rfl

theorem parallel_request (hphase : c.outlet.phase = .requests [])
    (hagree : l.served r.path = c.outlet.resolver.served r.path) :
    Parallel c l (c.request r) ((withLibrary l c).request r) := by
  have hexchange := parallel_exchange hphase hagree
  rw [Client.request, Client.request, show (withLibrary l c).poisoned = c.poisoned from rfl]
  cases c.poisoned with
  | true => exact .refl hphase _
  | false =>
      rw [if_neg Bool.false_ne_true, if_neg Bool.false_ne_true]
      generalize c.exchange r = x, (withLibrary l c).exchange r = y at hexchange
      obtain ⟨hlasts, hlasts', hphase₁⟩ := hexchange
      next result c₁ l₁ =>
      rcases result with e | response
      · cases e with
        | invalidPath path => exact .same hlasts hlasts' hphase₁
        | _ => exact .same hlasts hlasts' hphase₁
      · exact .same hlasts hlasts' hphase₁

theorem parallel_contents {path : String} (hphase : c.outlet.phase = .requests [])
    (hagree : l.served path = c.outlet.resolver.served path) :
    Parallel c l (Source.contents path c) (Source.contents path (withLibrary l c)) := by
  have hrequest := parallel_request (r := ⟨.contents, path⟩) hphase hagree
  show Parallel c l (c.readContents path) ((withLibrary l c).readContents path)
  rw [Client.readContents, Client.readContents]
  generalize c.request ⟨.contents, path⟩ = x, (withLibrary l c).request ⟨.contents, path⟩ = y
    at hrequest
  obtain ⟨hlasts, hlasts', hphase₁⟩ := hrequest
  next result c₁ l₁ =>
  rcases result with e | bs | _ | found <;> exact .same hlasts hlasts' hphase₁

theorem parallel_presence {path : String} (hphase : c.outlet.phase = .requests [])
    (hagree : l.served path = c.outlet.resolver.served path) :
    Parallel c l (Source.presence path c) (Source.presence path (withLibrary l c)) := by
  have hrequest := parallel_request (r := ⟨.presence, path⟩) hphase hagree
  show Parallel c l (c.readPresence path) ((withLibrary l c).readPresence path)
  rw [Client.readPresence, Client.readPresence]
  generalize c.request ⟨.presence, path⟩ = x, (withLibrary l c).request ⟨.presence, path⟩ = y
    at hrequest
  obtain ⟨hlasts, hlasts', hphase₁⟩ := hrequest
  next result c₁ l₁ =>
  rcases result with e | bs | _ | found <;> exact .same hlasts hlasts' hphase₁

/-- What comes after a part that has come to the same. -/
theorem Parallel.of_rest {α : Type} {c c₁ : Client (Server Library)} {l l₁ : Library}
    {x y : Except BridgeError α × Client (Server Library)}
    (hlasts : c.outlet.resolver.Lasts c₁.outlet.resolver) (hlasts' : l.Lasts l₁)
    (h : Parallel c₁ l₁ x y) : Parallel c l x y := by
  obtain ⟨hrest, hrest', hphase⟩ := h
  exact .same (hlasts.trans hrest) (hlasts'.trans hrest') hphase

/-- What a dialogue does is decided by what is served where it asks. -/
theorem parallel_runOver {α : Type} {files : String → Option Bytes} (hc : Calm files c)
    (d : Dialogue α) (hagree : ∀ r ∈ d.requests files, l.served r.path = files r.path) :
    Parallel c l (d.runOver c) (d.runOver (withLibrary l c)) := by
  induction d generalizing c l with
  | done a => exact .refl hc.phase _
  | contents path next ih =>
      rw [Dialogue.requests, List.forall_mem_cons] at hagree
      have hask := parallel_contents hc.phase (hagree.1.trans (congrFun hc.served path).symm)
      have hhonest := (honest_calm files).contents path c
      rw [Dialogue.runOver, Dialogue.runOver]
      generalize Source.contents path c = x, Source.contents path (withLibrary l c) = y
        at hask hhonest
      obtain ⟨hlasts, hlasts', hphase₁⟩ := hask
      next result c₁ l₁ =>
      cases result with
      | error e => exact .same hlasts hlasts' hphase₁
      | ok reply =>
          obtain ⟨rfl, hc₁⟩ := hhonest reply c₁ hc rfl
          exact .of_rest hlasts hlasts' <| ih _ hc₁ fun r hr ↦
            (congrFun hlasts'.served r.path).trans (hagree.2 r hr)
  | presence path next ih =>
      rw [Dialogue.requests, List.forall_mem_cons] at hagree
      have hask := parallel_presence hc.phase (hagree.1.trans (congrFun hc.served path).symm)
      have hhonest := (honest_calm files).presence path c
      rw [Dialogue.runOver, Dialogue.runOver]
      generalize Source.presence path c = x, Source.presence path (withLibrary l c) = y
        at hask hhonest
      obtain ⟨hlasts, hlasts', hphase₁⟩ := hask
      next result c₁ l₁ =>
      cases result with
      | error e => exact .same hlasts hlasts' hphase₁
      | ok reply =>
          obtain ⟨rfl, hc₁⟩ := hhonest reply c₁ hc rfl
          exact .of_rest hlasts hlasts' <| ih _ hc₁ fun r hr ↦
            (congrFun hlasts'.served r.path).trans (hagree.2 r hr)

end Parallel

/-! ## Processes -/

/-- What a compile makes of the result of its dialogue. -/
def concluded (root : String) :
    Except BridgeError (Except Halt Compiled) → Except Halt BridgedCompile
  | .error e => .ok ⟨.error (.bridge e), []⟩
  | .ok (.error halt) => .error halt
  | .ok (.ok c) => .ok (c.bridged root)

/-- A compile does nothing with its source but to hold its dialogue. -/
theorem compileOver_eq {β : Type} [Source β] (options : CompileOptions) (depth : Nat)
    (root : String) (b : β) :
    compileOver options depth root b =
      (concluded root ((compile options depth root).runOver b).1,
        ((compile options depth root).runOver b).2) := by
  rw [compileOver]
  rcases (compile options depth root).runOver b with ⟨e | halt | compiled, b'⟩
  · rfl
  · rfl
  · dsimp only [concluded, Compiled.bridged]
    cases compiled.outcome <;> rfl

/-- What a process writes at its end is nothing or its output. -/
theorem output_childRun (c : BridgedCompile) :
    (childRun none c).output = [] ∨ ∃ text, (childRun none c).output = encodeOutput text := by
  rw [childRun]
  rcases c.result with (_ | _) | output
  · exact .inl rfl
  · exact .inl rfl
  · exact .inr ⟨_, rfl⟩

/-- A parent that takes what a process writes at its end looks nothing up any more. -/
theorem exists_phase_of_output (c : BridgedCompile) : ∃ phase, ∀ (l : Library) (n : Nat),
    ((⟨l, .requests [], n⟩ : Server Library).take (childRun none c).output).2.takeEnd.2 =
      ⟨l, phase, n⟩ := by
  rcases output_childRun c with houtput | ⟨text, houtput⟩
  · refine ⟨.requests [], fun l n ↦ ?_⟩
    rw [houtput]
    rfl
  · refine ⟨.output (Response.contentsFrame text).reverse, fun l n ↦ ?_⟩
    rw [houtput, Server.take_encodeOutput]
    rfl

/-- Whether a program comes to the same over two libraries, and neither library can be told from
what it was. -/
inductive SameRun (l l' : Library) : (x y : Except StartFault (Run Library)) → Prop
  | failed (fault : StartFault) : SameRun l l' (.error fault) (.error fault)
  | ran {run : Run Library} {l₁ : Library} (lasts : l.Lasts run.server.resolver)
      (lasts' : l'.Lasts l₁) :
      SameRun l l' (.ok run) (.ok { run with server := { run.server with resolver := l₁ } })

theorem SameRun.lasts {l l' : Library} {x y : Except StartFault (Run Library)}
    (h : SameRun l l' x y) {run : Run Library} (hrun : x = .ok run) :
    l.Lasts run.server.resolver := by
  cases h with
  | failed fault => cases hrun
  | ran hlasts _ =>
      obtain rfl := Except.ok.inj hrun
      exact hlasts

theorem calm_clientOf (limit : Option Duration) (l : Library) :
    Calm l.served (clientOf limit (Server.start l)) := by
  cases limit with
  | none => exact ⟨rfl, rfl, rfl⟩
  | some limit => exact ⟨rfl, rfl, rfl⟩

theorem outlet_clientOf (limit : Option Duration) (server : Server Library) :
    (clientOf limit server).outlet = server := by
  cases limit <;> rfl

theorem withLibrary_clientOf (limit : Option Duration) (l l' : Library) :
    withLibrary l' (clientOf limit (Server.start l)) = clientOf limit (Server.start l') := by
  cases limit <;> rfl

/-- What a compiler process comes to is decided by what is served where the compile of its task
asks. -/
theorem sameRun_compiler {task : Task} {l l' : Library}
    (hagree : ∀ r ∈ (compile task.options importLimit task.root).requests l.served,
      l'.served r.path = l.served r.path) :
    SameRun l l' (compiler task (Server.start l)) (compiler task (Server.start l')) := by
  have hrun := parallel_runOver (calm_clientOf task.limit l) _ hagree
  rw [compiler, compiler, runChild, runChild, compileOver_eq, compileOver_eq,
    ← withLibrary_clientOf _ l l']
  generalize (compile task.options importLimit task.root).runOver
    (clientOf task.limit (Server.start l)) = x at hrun ⊢
  generalize (compile task.options importLimit task.root).runOver
    (withLibrary l' (clientOf task.limit (Server.start l))) = y at hrun ⊢
  obtain ⟨hlasts, hlasts', hphase⟩ := hrun
  next result c l₁ =>
  obtain ⟨stream, ⟨l₀, phase, n⟩, limit, poisoned, roundTrips⟩ := c
  obtain rfl : phase = .requests [] := hphase
  rw [outlet_clientOf] at hlasts
  dsimp only [withLibrary]
  rcases concluded task.root result with halt | compiled
  · exact .ran hlasts hlasts'
  · obtain ⟨phase, hend⟩ := exists_phase_of_output compiled
    dsimp only [Except.map]
    rw [hend, hend]
    exact .ran hlasts hlasts'

/-- What this program comes to as a compiler process is decided by what is served where the compile
of its task asks. -/
theorem sameRun_own (task : Task) {l l' : Library}
    (hagree : ∀ r ∈ (compile task.options importLimit task.root).requests l.served,
      l'.served r.path = l.served r.path) :
    SameRun l l' (Invocation.own.program task (Server.start l))
      (Invocation.own.program task (Server.start l')) := by
  rw [Invocation.program, Program.guarded, Program.guarded]
  split
  · exact sameRun_compiler hagree
  · exact .failed _

end PipedCompiler.Worker
