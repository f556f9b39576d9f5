import PipedCompiler.Proofs.Compile.Requests
import PipedCompiler.Proofs.Compile.Walk

/-!
# Nothing is asked twice

The host remembers what it is told, but it does not remember that there is a file.  Still no file is
asked for again: a file that is said to be there is loaded next, unless that has been tried already.
This is so whatever the answers are, and even if they contradict each other.
-/

namespace PipedCompiler.Compile

open PipedCompiler.Text PipedCompiler.Bridge PipedCompiler.Language

/-! ## Exchanges -/

/-- A question, and what came back. -/
inductive Exchange where
  | contents (path : String) (reply : Except BridgeError (Option Bytes))
  | presence (path : String) (reply : Except BridgeError Bool)

namespace Exchange

/-- What has been asked. -/
def request : Exchange → Request
  | .contents path _ => ⟨.contents, path⟩
  | .presence path _ => ⟨.presence, path⟩

/-- Whether all has been said about the path: what it holds, or that there is nothing. -/
def settles : Exchange → Bool
  | .contents _ (.ok _) => true
  | .contents _ (.error _) => false
  | .presence _ (.ok found) => !found
  | .presence _ (.error _) => false

/-- Whether a question makes sense after an exchange: about the same path, it has been said that
there is a file, and the question is what it holds. -/
def Admits (e : Exchange) (r : Request) : Prop :=
  e.request.path = r.path → r.kind = .contents ∧ e = .presence r.path (.ok true)

end Exchange

/-- A source with all that it has been asked and has answered, in order. -/
structure Noted (β : Type) where
  source : β
  log : List Exchange

section Noted

variable {α γ β : Type} [Source β]

instance : Source (Noted β) where
  contents path n :=
    let answer := Source.contents path n.source
    (answer.1, ⟨answer.2, n.log ++ [.contents path answer.1]⟩)
  presence path n :=
    let answer := Source.presence path n.source
    (answer.1, ⟨answer.2, n.log ++ [.presence path answer.1]⟩)

/-- It makes no difference to a dialogue that it is noted. -/
theorem runOver_noted (d : Dialogue α) (b : β) (log : List Exchange) :
    ∃ log', d.runOver (⟨b, log⟩ : Noted β) = ((d.runOver b).1, ⟨(d.runOver b).2, log'⟩) := by
  induction d generalizing b log with
  | done a => exact ⟨log, rfl⟩
  | contents path next ih =>
      rw [Dialogue.runOver, Dialogue.runOver]
      dsimp only [Source.contents]
      rcases Source.contents path b with ⟨e | reply, b'⟩
      · exact ⟨_, rfl⟩
      · exact ih _ _ _
  | presence path next ih =>
      rw [Dialogue.runOver, Dialogue.runOver]
      dsimp only [Source.presence]
      rcases Source.presence path b with ⟨e | reply, b'⟩
      · exact ⟨_, rfl⟩
      · exact ih _ _ _

/-- Whether all questions make sense after what has been said before them. -/
def Orderly (log : List Exchange) : Prop :=
  log.Pairwise fun e e' ↦ e.Admits e'.request

theorem Orderly.append {log : List Exchange} (h : Orderly log) {e : Exchange}
    (he : ∀ e' ∈ log, e'.Admits e.request) : Orderly (log ++ [e]) := by
  refine List.pairwise_append.mpr ⟨h, List.pairwise_singleton _ _, ?_⟩
  intro e' he' _ hlast
  rw [List.mem_singleton.mp hlast]
  exact he e' he'

theorem Orderly.nodup {log : List Exchange} (h : Orderly log) :
    (log.map Exchange.request).Nodup := by
  refine List.pairwise_map.mpr (h.imp fun {e e'} hadmits heq ↦ ?_)
  obtain ⟨hkind, rfl⟩ := hadmits (congrArg Request.path heq)
  rw [← heq] at hkind
  cases hkind

/-- Once something has been asked about a path, it is not asked if there is such a file. -/
theorem Orderly.not_presence {before after : List Exchange} {e : Exchange}
    (h : Orderly (before ++ e :: after)) :
    ⟨.presence, e.request.path⟩ ∉ after.map Exchange.request := by
  intro hpresence
  obtain ⟨e', he', hrequest⟩ := List.mem_map.mp hpresence
  have hadmits := List.rel_of_pairwise_cons (List.pairwise_append.mp h).2.1 he'
  rw [hrequest] at hadmits
  cases (hadmits rfl).1

/-- What is said not to be there is not read, neither before nor after. -/
theorem Orderly.not_contents {log : List Exchange} (h : Orderly log) {path : String}
    (hmissing : .presence path (.ok false) ∈ log) :
    ⟨.contents, path⟩ ∉ log.map Exchange.request := by
  intro hcontents
  obtain ⟨e, he, hrequest⟩ := List.mem_map.mp hcontents
  have hpath : e.request.path = path := congrArg Request.path hrequest
  obtain ⟨before, after, rfl⟩ := List.append_of_mem hmissing
  obtain ⟨-, hafter, hbefore⟩ := List.pairwise_append.mp h
  rcases List.mem_append.mp he with he | he
  · cases (hbefore e he _ List.mem_cons_self hpath).1
  rcases List.mem_cons.mp he with rfl | he
  · cases hrequest
  · cases (List.rel_of_pairwise_cons hafter he hpath.symm).2

/-! ## What makes sense to ask -/

/-- Whether all questions of a dialogue make sense after what has been said, whatever is answered,
and what it comes to has a property. -/
def Dialogue.Sparing (post : α → List Exchange → Prop) : Dialogue α → List Exchange → Prop
  | .done a, log => post a log
  | .contents path next, log => (∀ e ∈ log, e.Admits ⟨.contents, path⟩) ∧
    ∀ reply, (next reply).Sparing post (log ++ [.contents path (.ok reply)])
  | .presence path next, log => (∀ e ∈ log, e.Admits ⟨.presence, path⟩) ∧
    ∀ reply, (next reply).Sparing post (log ++ [.presence path (.ok reply)])

namespace Dialogue

theorem Sparing.mono {post post' : α → List Exchange → Prop} {d : Dialogue α}
    {log : List Exchange} (h : d.Sparing post log) (hpost : ∀ a log, post a log → post' a log) :
    d.Sparing post' log := by
  induction d generalizing log with
  | done a => exact hpost a log h
  | contents path next ih => exact ⟨h.1, fun reply ↦ ih reply (h.2 reply)⟩
  | presence path next ih => exact ⟨h.1, fun reply ↦ ih reply (h.2 reply)⟩

theorem sparing_bind {post : γ → List Exchange → Prop} {d : Dialogue α} {f : α → Dialogue γ}
    {log : List Exchange} :
    (d.bind f).Sparing post log ↔ d.Sparing (fun a ↦ (f a).Sparing post) log := by
  induction d generalizing log with
  | done a => exact Iff.rfl
  | contents path next ih => exact and_congr Iff.rfl (forall_congr' fun reply ↦ ih reply)
  | presence path next ih => exact and_congr Iff.rfl (forall_congr' fun reply ↦ ih reply)

/-- Over any source, a dialogue asks only what makes sense. -/
theorem Sparing.orderly {post : α → List Exchange → Prop} {d : Dialogue α} {log : List Exchange}
    (h : d.Sparing post log) (hlog : Orderly log) (b : β) :
    Orderly (d.runOver (⟨b, log⟩ : Noted β)).2.log := by
  induction d generalizing b log with
  | done a => exact hlog
  | contents path next ih =>
      rw [runOver]
      dsimp only [Source.contents]
      rcases Source.contents path b with ⟨e | reply, b'⟩
      · exact hlog.append h.1
      · exact ih reply (h.2 reply) (hlog.append h.1) b'
  | presence path next ih =>
      rw [runOver]
      dsimp only [Source.presence]
      rcases Source.presence path b with ⟨e | reply, b'⟩
      · exact hlog.append h.1
      · exact ih reply (h.2 reply) (hlog.append h.1) b'

end Dialogue

end Noted

/-! ## What a host recalls -/

namespace Host

/-- Whether a host knows all that has been said.  There may be one file that is said to be there and
that the host knows nothing about. -/
structure Recalls (h : Host) (there : Option String) (log : List Exchange) : Prop where
  known : ∀ path, h.known.contains path = true ↔
    ∃ e ∈ log, e.settles = true ∧ e.request.path = path
  unsettled : ∀ e ∈ log, e.settles = false →
    ∃ path, e = .presence path (.ok true) ∧ (h.known.contains path = true ∨ there = some path)

variable {h : Host} {there : Option String} {path : String} {log : List Exchange}

theorem recalls_start (options : CompileOptions) : (start options).Recalls none [] where
  known path := by simp [start, Table.contains]
  unsettled := nofun

namespace Recalls

theorem weaken (hr : h.Recalls none log) : h.Recalls there log where
  known := hr.known
  unsettled e he hopen := by
    obtain ⟨path, rfl, hknown | hthere⟩ := hr.unsettled e he hopen
    · exact ⟨path, rfl, .inl hknown⟩
    · cases hthere

/-- Once a host knows about the file that is there, it knows all. -/
theorem close (hr : h.Recalls (some path) log) (hknown : h.known.contains path = true) :
    h.Recalls none log where
  known := hr.known
  unsettled e he hopen := by
    obtain ⟨other, rfl, hother | hthere⟩ := hr.unsettled e he hopen
    · exact ⟨other, rfl, .inl hother⟩
    · obtain rfl := Option.some.inj hthere
      exact ⟨path, rfl, .inl hknown⟩

/-- What a host does not know, it makes sense to read. -/
theorem admits_contents (hr : h.Recalls there log) (hnew : h.known.get? path = none) :
    ∀ e ∈ log, e.Admits ⟨.contents, path⟩ := by
  rintro e he rfl
  cases hsettles : e.settles with
  | true =>
      have hknown := (hr.known _).mpr ⟨e, he, hsettles, rfl⟩
      rw [Table.contains_eq_false_iff.mpr hnew] at hknown
      cases hknown
  | false =>
      obtain ⟨path, rfl, -⟩ := hr.unsettled e he hsettles
      exact ⟨rfl, rfl⟩

/-- What a host does not know, it makes sense to ask for, if no file is still to be loaded. -/
theorem admits_presence (hr : h.Recalls none log) (hnew : h.known.get? path = none) :
    ∀ e ∈ log, e.Admits ⟨.presence, path⟩ := by
  rintro e he rfl
  have hunknown := Table.contains_eq_false_iff.mpr hnew
  cases hsettles : e.settles with
  | true =>
      have hknown := (hr.known _).mpr ⟨e, he, hsettles, rfl⟩
      rw [hunknown] at hknown
      cases hknown
  | false =>
      obtain ⟨path, rfl, hknown | hthere⟩ := hr.unsettled e he hsettles
      · exact absurd hknown (Bool.eq_false_iff.mp hunknown)
      · cases hthere

/-- A host that hears all about a path recalls it. -/
theorem hear (hr : h.Recalls (some path) log) {e : Exchange} (he : e.settles = true)
    (hpath : e.request.path = path) (reply : Option Bytes) :
    (h.hear path reply).Recalls none (log ++ [e]) where
  known other := by
    rw [Host.hear, Table.contains_insert, Bool.or_eq_true, decide_eq_true_iff, hr.known]
    simp [or_and_right, exists_or, he, hpath, or_comm]
  unsettled e' he' hopen := by
    rcases List.mem_append.mp he' with he' | he'
    · obtain ⟨other, rfl, hother | hthere⟩ := hr.unsettled e' he' hopen
      · exact ⟨other, rfl, .inl (by simp [Host.hear, hother])⟩
      · obtain rfl := Option.some.inj hthere
        exact ⟨path, rfl, .inl (by simp [Host.hear])⟩
    · rw [List.mem_singleton.mp he', he] at hopen
      cases hopen

/-- A host that is told that there is a file does not recall it. -/
theorem told (hr : h.Recalls none log) :
    h.Recalls (some path) (log ++ [.presence path (.ok true)]) where
  known other := by
    rw [hr.known]
    simp [or_and_right, exists_or, Exchange.settles]
  unsettled e he hopen := by
    rcases List.mem_append.mp he with he | he
    · exact hr.weaken.unsettled e he hopen
    · exact ⟨path, List.mem_singleton.mp he, .inr rfl⟩

/-- A file that is said to be there is read, unless the host knows it, and then the host knows
all. -/
theorem sparing_load (hr : h.Recalls (some path) log) :
    ((load path).run h).Sparing (fun r log ↦ r.2.Recalls none log ∧
      ∀ key, h.known.contains key = true ∨ path = key → r.2.known.contains key = true) log := by
  cases hknown : h.known.get? path with
  | some text =>
      have hcontains : h.known.contains path = true := by rw [Table.contains, hknown]; rfl
      rw [load_known hknown]
      refine ⟨hr.close hcontains, ?_⟩
      rintro key (hkey | rfl)
      · exact hkey
      · exact hcontains
  | none =>
      rw [load_new hknown]
      refine ⟨hr.admits_contents hknown, fun reply ↦ ⟨hr.hear rfl rfl reply, ?_⟩⟩
      intro key hkey
      simpa [Host.hear, or_comm] using hkey

theorem sparing_sourceFile (target : LanguageTarget) (hr : h.Recalls (some path) log) :
    ((sourceFile path target).run h).Sparing (fun r log ↦ r.2.Recalls none log ∧
      ∀ key, h.known.contains key = true ∨ path = key → r.2.known.contains key = true) log := by
  rw [sourceFile, StateT.run_bind, Dialogue.bind_eq, Dialogue.sparing_bind]
  exact hr.sparing_load

theorem sparing_exists (hr : h.Recalls none log) :
    ((exists? path).run h).Sparing (fun r log ↦
      r.2.Recalls (if r.1 then some path else none) log ∧
        ∀ key, h.known.contains key = true → r.2.known.contains key = true) log := by
  cases hknown : h.known.get? path with
  | some text =>
      rw [exists_known hknown]
      exact ⟨hr.weaken, fun _ hkey ↦ hkey⟩
  | none =>
      have hheard (reply : Option Bytes) (key : String) (hkey : h.known.contains key = true) :
          (h.hear path reply).known.contains key = true := by
        simp [Host.hear, hkey]
      rw [exists_new hknown]
      split
      · refine ⟨hr.admits_presence hknown, fun found ↦ ?_⟩
        cases found with
        | true => exact ⟨hr.told, fun _ hkey ↦ hkey⟩
        | false =>
            exact ⟨hr.weaken.hear (e := .presence path (.ok false)) rfl rfl none, hheard none⟩
      · refine ⟨hr.admits_contents hknown, fun reply ↦ ?_⟩
        have hrecalls := hr.weaken.hear (e := .contents path (.ok reply)) rfl rfl reply
        exact ⟨hrecalls.weaken, hheard reply⟩

end Recalls

end Host

/-! ## Loading -/

/-- Whether the host knows all that has been said, except for one file that is there, and all files
that have been looked for. -/
structure Progress.Recalls (p : Progress) (there : Option String) (log : List Exchange) : Prop where
  host : p.host.Recalls there log
  found : ∀ key, p.found.contains key = true → p.host.known.contains key = true

/-- What has been looked for is known. -/
theorem Progress.Recalls.close {p : Progress} {path : String} {log : List Exchange} {found : Bool}
    (hr : p.Recalls (some path) log) (hfound : p.found.get? path = some found) :
    p.Recalls none log := by
  refine ⟨hr.host.close (hr.found path ?_), hr.found⟩
  rw [Table.contains, hfound]
  rfl

namespace Loading

variable {α γ : Type}

/-- Whether a step of loading asks only what makes sense, and what has been said is recalled after
it, except for one file that is there. -/
def Spares (m : Loading α) (there : α → Option String) (p : Progress) (log : List Exchange) :
    Prop :=
  (m.run p).run.Sparing
    (fun r log ↦ ∀ a p', r = .ok (a, p') → p'.Recalls (there a) log) log

namespace Spares

variable {m : Loading α} {f : α → Loading γ} {there : α → Option String}
variable {there' : γ → Option String} {p : Progress} {log : List Exchange}

theorem bind (hm : Spares m there p log)
    (hf : ∀ a p log, p.Recalls (there a) log → Spares (f a) there' p log) :
    Spares (m >>= f) there' p log := by
  rw [Spares, StateT.run_bind, ExceptT.run_bind, Dialogue.bind_eq, Dialogue.sparing_bind]
  refine hm.mono fun r log hr ↦ ?_
  rcases r with halt | ⟨a, p'⟩
  · rintro _ _ ⟨⟩
  · exact hf a p' log (hr a p' rfl)

theorem pure {a : α} (hr : p.Recalls (there a) log) : Spares (pure a) there p log := by
  rintro _ _ ⟨⟩
  exact hr

theorem throw (halt : Halt) : Spares (throw halt : Loading α) there p log := by
  rintro _ _ ⟨⟩

theorem get_bind {f : Progress → Loading γ} (h : Spares (f p) there' p log) :
    Spares (get >>= f) there' p log :=
  h

theorem modify_bind {g : Progress → Progress} {f : Unit → Loading γ}
    (h : Spares (f ()) there' (g p) log) : Spares (modify g >>= f) there' p log :=
  h

theorem hosted_bind {action : Hosted α} {f : α → Loading γ}
    (h : (action.run p.host).Sparing
      (fun r log ↦ Spares (f r.1) there' { p with host := r.2 } log) log) :
    Spares (hosted action >>= f) there' p log := by
  rw [Spares, StateT.run_bind, ExceptT.run_bind, Dialogue.bind_eq, Dialogue.sparing_bind]
  show Dialogue.Sparing _ ((action.run p.host).bind _) log
  rw [Dialogue.sparing_bind]
  exact h

theorem exists? {path : String} {f : Bool → Loading γ} (hr : p.Recalls none log)
    (hf : ∀ found p log, p.Recalls (if found then some path else none) log →
      Spares (f found) there' p log) :
    Spares (hosted (Host.exists? path) >>= f) there' p log := by
  refine hosted_bind (hr.host.sparing_exists.mono ?_)
  rintro ⟨found, host⟩ log ⟨hrecalls, hkeeps⟩
  exact hf found _ log ⟨hrecalls, fun key hkey ↦ hkeeps key (hr.found key hkey)⟩

/-- What an import leads to may have been said to be there. -/
theorem resolve (hr : p.Recalls none log) (importer specifier : String) :
    Spares (resolve importer specifier) id p log := by
  simp only [Loading.resolve]
  split
  · exact pure ⟨hr.host.weaken, hr.found⟩
  refine exists? hr fun found p log hr ↦ ?_
  cases found with
  | true => exact pure hr
  | false =>
      refine exists? hr fun found p log hr ↦ ?_
      cases found with
      | true => exact pure hr
      | false => exact pure hr

theorem loadImports {load : String → Loading Bool}
    (hload : ∀ path p log, p.Recalls (some path) log → Spares (load path) (fun _ ↦ none) p log)
    (hr : p.Recalls none log) (importer : String) (is : List Import) :
    Spares (loadImports load importer is) (fun _ ↦ none) p log := by
  induction is generalizing p log with
  | nil => exact pure hr
  | cons i is ih =>
      rw [loadImports_cons]
      refine bind (resolve hr importer i.specifier) fun target p log hr ↦ ?_
      have hfollow : Spares (follow load target) (fun _ ↦ none) p log := by
        cases target with
        | none => exact pure hr
        | some path => exact hload path p log hr
      refine bind hfollow fun found p log hr ↦ ?_
      exact bind (ih hr) fun others p log hr ↦ pure hr

end Spares

/-- A file that has been looked for is not asked for again. -/
theorem spares_load_known (target : LanguageTarget) (depth : Nat) {path : String} {p : Progress}
    {log : List Exchange} {found : Bool} (hr : p.Recalls (some path) log)
    (hknown : p.found.get? path = some found) :
    Spares (load .plain target depth path) (fun _ ↦ none) p log := by
  rw [load.eq_def]
  refine .get_bind ?_
  rw [Surroundings.canonicalName_plain, hknown]
  exact .pure (hr.close hknown)

/-- A file that may have been said to be there is loaded, and then all is known. -/
theorem spares_load (target : LanguageTarget) (depth : Nat) {path : String} {p : Progress}
    {log : List Exchange} (hr : p.Recalls (some path) log) :
    Spares (load .plain target depth path) (fun _ ↦ none) p log := by
  induction depth generalizing path p log with
  | zero =>
      cases hknown : p.found.get? path with
      | some found => exact spares_load_known target 0 hr hknown
      | none =>
          rw [load]
          refine .get_bind ?_
          rw [Surroundings.canonicalName_plain, hknown]
          exact .throw _
  | succ depth ih =>
      cases hknown : p.found.get? path with
      | some found => exact spares_load_known target (depth + 1) hr hknown
      | none =>
          rw [load]
          refine .get_bind ?_
          rw [Surroundings.canonicalName_plain, hknown]
          refine .modify_bind (.hosted_bind ((Host.Recalls.sparing_sourceFile target hr.host).mono ?_))
          rintro ⟨file, host⟩ log ⟨hrecalls, hkeeps⟩
          have hr' (found : Table Bool) (hfound : ∀ key, found.contains key = true →
              p.found.contains key = true ∨ path = key) :
              Progress.Recalls { p with host, found } none log := by
            refine ⟨hrecalls, fun key hkey ↦ hkeeps key ?_⟩
            exact (hfound key hkey).imp_left (hr.found key)
          cases file with
          | none =>
              refine .modify_bind (.pure (hr' _ fun key hkey ↦ ?_))
              simpa [or_comm] using hkey
          | some source =>
              dsimp only
              cases SyntaxTree.ofText? source.chars with
              | none => exact .throw _
              | some tree =>
                  have himports := Spares.loadImports (fun _ _ _ hr ↦ ih hr)
                    (hr' (p.found.insert path true) fun key hkey ↦ ?_) path tree.imports
                  · refine .bind himports fun unresolved p log hr ↦ ?_
                    exact .modify_bind (.pure ⟨hr.host, hr.found⟩)
                  · simpa [or_comm] using hkey

theorem spares_demand (target : LanguageTarget) (depth : Nat) (path : String) {p : Progress}
    {log : List Exchange} (hr : p.Recalls none log) :
    Spares (Program.demand .plain target depth path) (fun _ ↦ none) p log :=
  .bind (spares_load target depth ⟨hr.host.weaken, hr.found⟩) fun _ _ _ hr ↦ .pure hr

end Loading

/-- A compile asks only what makes sense. -/
theorem sparing_compile (options : CompileOptions) (depth : Nat) (root : String) :
    (compile options depth root).Sparing (fun _ _ ↦ True) [] := by
  have hr : Progress.Recalls ⟨.start options, .empty, []⟩ none [] := by
    refine ⟨Host.recalls_start options, fun key hkey ↦ ?_⟩
    cases hkey
  have hlibrary : Loading.Spares (Program.demandLibrary .plain options depth) (fun _ ↦ none)
      ⟨.start options, .empty, []⟩ [] := by
    rw [Program.demandLibrary]
    split
    · exact .pure hr
    · exact Loading.spares_demand options.target depth options.libraryPath hr
  have hall : Loading.Spares
      (Program.demandAll .plain options depth (Program.rootPath .plain root)) (fun _ ↦ none)
      ⟨.start options, .empty, []⟩ [] := by
    refine .bind hlibrary fun library p log hr ↦ ?_
    refine .bind (Loading.spares_demand options.target depth _ hr) fun main p log hr ↦ ?_
    exact .pure hr
  rw [compile, Dialogue.bind_eq, Dialogue.sparing_bind, Program.load_eq, Dialogue.sparing_bind]
  refine Dialogue.Sparing.mono hall fun r log _ ↦ ?_
  rcases r with halt | ⟨missing, p⟩
  · exact trivial
  · exact trivial

/-! ## Compiles -/

section Compile

variable {β : Type} [Source β]

/-- It makes no difference to a compile that its questions are noted. -/
theorem compileOver_noted (options : CompileOptions) (depth : Nat) (root : String) (b : β) :
    ∃ log, compileOver options depth root (⟨b, []⟩ : Noted β) =
        ((compileOver options depth root b).1, ⟨(compileOver options depth root b).2, log⟩) ∧
      ((compile options depth root).runOver (⟨b, []⟩ : Noted β)).2.log = log := by
  obtain ⟨log, hrun⟩ := runOver_noted (compile options depth root) b []
  refine ⟨log, ?_, congrArg (Noted.log ∘ Prod.snd) hrun⟩
  rw [compileOver, compileOver, hrun]
  rcases (compile options depth root).runOver b with ⟨e | halt | c, b'⟩
  · rfl
  · rfl
  · dsimp only
    cases c.outcome <;> rfl

/-- Whatever a source answers, a compile asks nothing twice.  It does not ask if there is a file once
it has asked about the path, not even if it has read it, and it does not read a file that is said
not to be there. -/
theorem compileOver_asksOnce (options : CompileOptions) (depth : Nat) (root : String) (b : β) :
    ∃ log, compileOver options depth root (⟨b, []⟩ : Noted β) =
        ((compileOver options depth root b).1, ⟨(compileOver options depth root b).2, log⟩) ∧
      (log.map Exchange.request).Nodup ∧
      (∀ before e after, log = before ++ e :: after →
        ⟨.presence, e.request.path⟩ ∉ after.map Exchange.request) ∧
      ∀ path, .presence path (.ok false) ∈ log →
        ⟨.contents, path⟩ ∉ log.map Exchange.request := by
  obtain ⟨log, hover, hrun⟩ := compileOver_noted options depth root b
  have horderly : Orderly log := by
    have h := (sparing_compile options depth root).orderly List.Pairwise.nil b
    rwa [hrun] at h
  refine ⟨log, hover, horderly.nodup, ?_, fun path ↦ horderly.not_contents⟩
  rintro before e after rfl
  exact horderly.not_presence

end Compile

end PipedCompiler.Compile
