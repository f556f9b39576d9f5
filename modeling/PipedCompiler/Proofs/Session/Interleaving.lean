import PipedCompiler.Proofs.Session.Histories
import PipedCompiler.Proofs.Session.Processes

/-!
# Sessions at the same time

Sessions that share a store in memory may take their steps in any order: one looks its key up while
another one has its process run, and a third one keeps its output.  As long as the files that are
served stay the same, none of them can be told from a session of its root alone.  What carries this
is that all that is ever kept is what a session of the root alone makes under that key, so that it
does not matter who has kept it or whether it is kept again.
-/

namespace PipedCompiler.Session

open PipedCompiler.Text PipedCompiler.Parent PipedCompiler.Compile PipedCompiler.Worker

/-! ## Steps -/

/-- How far a session has come. -/
inductive Job where
  | waiting (root : String)
  /-- Nothing has been found: a process has to make the output. -/
  | open_ (root : String) (key : Option String)
  /-- The output has been made, but not been kept. -/
  | made (root : String) (key : Option String) (text : String) (requests : Nat)
  | done (result : SessionResult)

/-- How far a session has come that has been started. -/
def Job.ofStarted : Compiler.Started → Job
  | .kept output => .done (.ok output)
  | .open_ root key => .open_ root key

/-- How many steps a session takes at most until it is done. -/
def Job.left : Job → Nat
  | .waiting _ => 3
  | .open_ _ _ => 2
  | .made _ _ _ _ => 1
  | .done _ => 0

namespace Compiler

/-- The next step of a session: it looks its key up, has a process run, or keeps the output. -/
def advance (k : Compiler) (j : Job) (c : Context) : Job × Context :=
  match j with
  | .waiting root =>
    let (s, c) := k.start root c
    (.ofStarted s, c)
  | .open_ root key =>
    match k.run root c with
    | (.error e, c) => (.done (.error e), c)
    | (.ok (text, requests), c) => (.made root key text requests, c)
  | .made root key text requests =>
    let c := match key with
      | some key => c.keep key text
      | none => c
    (.done (.ok ⟨root, text, requests, false⟩), c)
  | .done result => (.done result, c)

/-- What has become of sessions after the one at a place has taken a step. -/
def turn (k : Compiler) (s : List Job × Context) (i : Nat) : List Job × Context :=
  match s.1[i]? with
  | none => s
  | some j =>
    let (j, c) := k.advance j s.2
    (s.1.set i j, c)

/-- What has become of sessions after these have taken a step each, one after the other. -/
def turns (k : Compiler) (order : List Nat) (s : List Job × Context) : List Job × Context :=
  order.foldl k.turn s

section Steps

variable (k : Compiler) {order : List Nat} {s : List Job × Context}

theorem turns_append (order order' : List Nat) (s : List Job × Context) :
    k.turns (order ++ order') s = k.turns order' (k.turns order s) :=
  List.foldl_append

theorem turn_at (before : List Job) (j : Job) (after : List Job) (c : Context) :
    k.turn (before ++ j :: after, c) before.length =
      (before ++ (k.advance j c).1 :: after, (k.advance j c).2) := by
  have hget : (before ++ j :: after)[before.length]? = some j := by simp
  rw [turn, hget]
  dsimp only
  rw [List.set_append_right _ _ (Nat.le_refl _), Nat.sub_self, List.set_cons_zero]

theorem length_turn (s : List Job × Context) (i : Nat) : (k.turn s i).1.length = s.1.length := by
  rw [turn]
  split
  · rfl
  · exact List.length_set

theorem length_turns (order : List Nat) (s : List Job × Context) :
    (k.turns order s).1.length = s.1.length := by
  induction order generalizing s with
  | nil => rfl
  | cons i order ih => exact (ih (k.turn s i)).trans (k.length_turn s i)

/-- Each step brings a session nearer to its end. -/
theorem left_advance_le (j : Job) (c : Context) : (k.advance j c).1.left ≤ j.left - 1 := by
  cases j with
  | waiting root =>
      rw [advance]
      rcases k.start root c with ⟨_ | _, c'⟩
      · exact Nat.zero_le 2
      · exact Nat.le_refl 2
  | open_ root key =>
      rw [advance]
      rcases k.run root c with ⟨_ | _, c'⟩
      · exact Nat.zero_le 1
      · exact Nat.le_refl 1
  | made root key text requests => exact Nat.le_refl 0
  | done result => exact Nat.le_refl 0

/-- After as many turns as it can take steps, a session is done. -/
theorem left_turns_le {i : Nat} {j j' : Job} (h : s.1[i]? = some j)
    (h' : (k.turns order s).1[i]? = some j') : j'.left ≤ j.left - order.count i := by
  induction order generalizing s j with
  | nil =>
      obtain rfl : j = j' := Option.some.inj (h.symm.trans h')
      exact Nat.le_refl _
  | cons first order ih =>
      by_cases hfirst : first = i
      · subst hfirst
        have hturn : (k.turn s first).1[first]? = some (k.advance j s.2).1 := by
          rw [turn, h]
          exact List.getElem?_set_self (List.getElem?_eq_some_iff.mp h).1
        have hleft := k.left_advance_le j s.2
        have hrest := ih hturn h'
        rw [List.count_cons_self]
        omega
      · have hturn : (k.turn s first).1[i]? = some j := by
          rw [turn]
          split
          · exact h
          · exact (List.getElem?_set_ne hfirst).trans h
        rw [List.count_cons_of_ne hfirst]
        exact ih hturn h'

/-- Three turns are enough for a whole session. -/
theorem left_turns_eq_zero {roots : List String} (c : Context)
    (hcount : ∀ i < roots.length, 3 ≤ order.count i) {j : Job}
    (hj : j ∈ (k.turns order (roots.map .waiting, c)).1) : j.left = 0 := by
  obtain ⟨i, hi, hget⟩ := List.mem_iff_getElem.mp hj
  have hlength : i < roots.length := by
    rwa [length_turns, List.length_map] at hi
  have hwaiting : (roots.map Job.waiting)[i]? = some (.waiting roots[i]) := by
    rw [List.getElem?_map, List.getElem?_eq_getElem hlength]
    rfl
  have hleft := k.left_turns_le hwaiting (List.getElem?_eq_some_iff.mpr ⟨hi, hget⟩)
  have hwhole : (Job.waiting roots[i]).left = 3 := rfl
  have hthree := hcount i hlength
  omega

end Steps

/-! ## Sessions in the order of their roots -/

/-- Whether some steps lead from here to there. -/
def Reaches (k : Compiler) (s s' : List Job × Context) : Prop :=
  ∃ order, k.turns order s = s'

section Reaches

variable {k : Compiler} {s s' s'' : List Job × Context}

theorem Reaches.refl (s : List Job × Context) : k.Reaches s s :=
  ⟨[], rfl⟩

theorem Reaches.trans (h : k.Reaches s s') (h' : k.Reaches s' s'') : k.Reaches s s'' := by
  obtain ⟨order, rfl⟩ := h
  obtain ⟨order', rfl⟩ := h'
  exact ⟨order ++ order', k.turns_append order order' s⟩

variable (k)

theorem reaches_advance (before : List Job) (j : Job) (after : List Job) (c : Context) :
    k.Reaches (before ++ j :: after, c)
      (before ++ (k.advance j c).1 :: after, (k.advance j c).2) :=
  ⟨[before.length], k.turn_at before j after c⟩

theorem reaches_start (before : List Job) (root : String) (after : List Job) (c : Context) :
    k.Reaches (before ++ .waiting root :: after, c)
      (before ++ .ofStarted (k.start root c).1 :: after, (k.start root c).2) :=
  k.reaches_advance before (.waiting root) after c

theorem reaches_finish (before : List Job) (s : Started) (after : List Job) (c : Context) :
    k.Reaches (before ++ .ofStarted s :: after, c)
      (before ++ .done (k.finish s c).1 :: after, (k.finish s c).2) := by
  cases s with
  | kept output => exact .refl _
  | open_ root key =>
      have hrun := k.reaches_advance before (.open_ root key) after c
      rw [advance] at hrun
      rw [finish]
      generalize k.run root c = ran at hrun ⊢
      rcases ran with ⟨e | ⟨text, requests⟩, c'⟩
      · exact hrun
      · exact hrun.trans (k.reaches_advance before (.made root key text requests) after c')

theorem reaches_startAll (before : List Job) (roots : List String) (after : List Job)
    (c : Context) :
    k.Reaches (before ++ roots.map .waiting ++ after, c)
      (before ++ (k.startAll roots c).1.map .ofStarted ++ after, (k.startAll roots c).2) := by
  induction roots generalizing before c with
  | nil => exact .refl _
  | cons root roots ih =>
      have hfirst := k.reaches_start before root (roots.map .waiting ++ after) c
      have hrest := ih (before ++ [.ofStarted (k.start root c).1]) (k.start root c).2
      simp only [List.append_assoc, List.singleton_append] at hrest
      simpa only [startAll, List.map_cons, List.cons_append, List.append_assoc]
        using hfirst.trans hrest

theorem reaches_finishAll (before : List Job) (running : List Started) (waiting : List String)
    (c : Context) (hwaiting : running = [] → waiting = []) :
    k.Reaches (before ++ running.map .ofStarted ++ waiting.map .waiting, c)
      (before ++ (k.finishAll running waiting c).1.map .done,
        (k.finishAll running waiting c).2) := by
  induction running, waiting, c using finishAll.induct k generalizing before with
  | case1 waiting c =>
      obtain rfl := hwaiting rfl
      simpa only [finishAll, List.map_nil, List.append_nil] using .refl _
  | case2 s running c result c₁ hfinish others c₂ hrest ih =>
      have hfirst := k.reaches_finish before s (running.map .ofStarted) c
      have hlast := ih (before ++ [.done result]) fun _ ↦ rfl
      simp only [hfinish, hrest, List.map_nil, List.append_nil, List.append_assoc,
        List.singleton_append] at hfirst hlast
      simpa only [finishAll, hfinish, hrest, List.map_nil, List.append_nil, List.map_cons]
        using hfirst.trans hlast
  | case3 s running root waiting c result c₁ hfinish next c₂ hstart others c₃ hrest ih =>
      have hfirst := k.reaches_finish before s
        (running.map .ofStarted ++ .waiting root :: waiting.map .waiting) c
      have hnext := k.reaches_start (before ++ .done result :: running.map .ofStarted) root
        (waiting.map .waiting) c₁
      have hlast := ih (before ++ [.done result]) fun h ↦ by simp at h
      simp only [hfinish, hstart, hrest, List.map_append, List.map_cons, List.map_nil,
        List.append_assoc, List.cons_append, List.nil_append] at hfirst hnext hlast
      simpa only [finishAll, hfinish, hstart, hrest, List.map_cons, List.append_assoc,
        List.cons_append] using (hfirst.trans hnext).trans hlast

theorem length_startAll (roots : List String) (c : Context) :
    (k.startAll roots c).1.length = roots.length := by
  induction roots generalizing c with
  | nil => rfl
  | cons root roots ih =>
      rw [startAll]
      exact congrArg (· + 1) (ih (k.start root c).2)

/-- Compiling roots is one of the orders in which their sessions may take their steps. -/
theorem reaches_compileAll (roots : List String) (width : Nat) (c : Context) :
    k.Reaches (roots.map .waiting, c)
      ((k.compileAll roots width c).1.map .done, (k.compileAll roots width c).2) := by
  have hstart := k.reaches_startAll [] (roots.take (max width 1))
    ((roots.drop (max width 1)).map .waiting) c
  have hlength := k.length_startAll (roots.take (max width 1)) c
  have hfinish := k.reaches_finishAll [] (k.startAll (roots.take (max width 1)) c).1
    (roots.drop (max width 1)) (k.startAll (roots.take (max width 1)) c).2 fun hnone ↦ by
      rw [hnone] at hlength
      have hroots : roots.length = 0 := by
        simp only [List.length_nil, List.length_take] at hlength
        omega
      simp [List.eq_nil_of_length_eq_zero hroots]
  rw [List.nil_append, ← List.map_append, List.take_append_drop] at hstart
  exact hstart.trans hfinish

end Reaches

end Compiler

/-! ## What compiling a root alone makes -/

/-- What compiling a root alone comes to, without a store. -/
def alone (limit : Option Duration) (options : CompileOptions) (c : Context) (root : String) :
    SessionResult :=
  ((Compiler.own limit options).compile root c.uncached).1

/-- Whether a result is the one of a root, with the text or the error of compiling it alone. -/
structure Fits (limit : Option Duration) (options : CompileOptions) (c : Context) (root : String)
    (result : SessionResult) : Prop where
  root_eq : ∀ output, result = .ok output → output.root = root
  same : result.map SessionOutput.text = (alone limit options c root).map SessionOutput.text

/-- Whether a text has been made by a compile that goes well, of an input whose key this is. -/
def Rightful (limit : Option Duration) (c : Context)
    (inputs : String → Bytes → CompileOptions → Prop) (key text : String) : Prop :=
  ∃ root source o, inputs root source o ∧ c.library.served root = some source ∧
    key = Cache.key root source o ∧ (alone limit o c root).map SessionOutput.text = .ok text

section Alone

variable {limit : Option Duration} {options : CompileOptions} {root : String} {c c' : Context}
  {inputs : String → Bytes → CompileOptions → Prop}

/-- Compiling a root alone comes to what a process comes to, at any time. -/
theorem run_eq_alone (h : c.library.Lasts c'.library) :
    ((Compiler.own limit options).run root c').1.map (madeOutput root) =
      alone limit options c root := by
  rw [alone, result_uncached]
  refine congrArg (Except.map (madeOutput root)) (run_own_congr fun r _ ↦ ?_)
  rw [h.served, (c.library.lasts_contents root).served]

/-- Where digests do not collide, a text that is rightful under the key of an input is its own. -/
theorem Rightful.eq_alone (hapart : Cache.DigestsApart inputs) {source : Bytes} {text : String}
    (hinput : inputs root source options)
    (h : Rightful limit c inputs (Cache.key root source options) text) :
    (alone limit options c root).map SessionOutput.text = .ok text := by
  obtain ⟨root', source', o, hinput', -, hkey, htext⟩ := h
  obtain ⟨rfl, rfl, rfl⟩ := hapart.key_inj hinput hinput' hkey
  exact htext

end Alone

/-! ## What steps preserve -/

/-- What holds of the context at any time: it serves the same files, and has kept nothing in memory
but what is rightful. -/
structure Steady (limit : Option Duration) (c : Context)
    (inputs : String → Bytes → CompileOptions → Prop) (c' : Context) : Prop where
  lasts : c.library.Lasts c'.library
  memory : c'.InMemory
  rightful : ∀ key text, c'.Keeps key text → Rightful limit c inputs key text

/-- Whether a key is that of a root that can be read. -/
def KeyOf (options : CompileOptions) (c : Context) (root : String) (key : Option String) : Prop :=
  ∀ name ∈ key, ∃ source, c.library.served root = some source ∧
    name = Cache.key root source options

/-- Whether a session of a root has come this far with nothing wrong. -/
inductive Job.Sound (limit : Option Duration) (options : CompileOptions) (c : Context)
    (root : String) : Job → Prop where
  | waiting : Sound limit options c root (.waiting root)
  | open_ {key : Option String} :
      KeyOf options c root key → Sound limit options c root (.open_ root key)
  | made {key : Option String} {text : String} {requests : Nat} :
      KeyOf options c root key →
      (alone limit options c root).map SessionOutput.text = .ok text →
      Sound limit options c root (.made root key text requests)
  | done {result : SessionResult} :
      Fits limit options c root result → Sound limit options c root (.done result)

section Preserved

variable {limit : Option Duration} {options : CompileOptions} {c c' : Context}
  {inputs : String → Bytes → CompileOptions → Prop}

/-- Looking something up keeps nothing. -/
theorem Steady.look {l : Library} (h : Steady limit c inputs c') (hl : c'.library.Lasts l) :
    Steady limit c inputs { c' with library := l } := by
  obtain ⟨entries, hstore⟩ := h.memory
  refine ⟨h.lasts.trans hl, ⟨entries, hstore⟩, fun key text hkeeps ↦ h.rightful key text ?_⟩
  rw [Context.Keeps, hstore] at hkeeps ⊢
  exact hkeeps

theorem Steady.keep {key text : String} (h : Steady limit c inputs c')
    (hright : Rightful limit c inputs key text) : Steady limit c inputs (c'.keep key text) := by
  obtain ⟨entries, hstore⟩ := h.memory
  have hkeep : c'.keep key text = ⟨c'.library, .memory (entries.insert key text)⟩ := by
    rw [Context.keep, hstore]
    rfl
  rw [hkeep]
  refine ⟨h.lasts, ⟨_, rfl⟩, fun name output hkeeps ↦ ?_⟩
  have hget : (entries.insert key text).get? name = some output := hkeeps
  rw [Table.get?_insert] at hget
  split at hget
  · next hname =>
    obtain rfl := Option.some.inj hget
    exact hname ▸ hright
  · refine h.rightful name output ?_
    rw [Context.Keeps, hstore]
    exact hget

/-- No step of a session goes wrong, whatever the other ones have done before. -/
theorem sound_advance {root : String} {j : Job} (hapart : Cache.DigestsApart inputs)
    (hinput : ∀ source, c.library.served root = some source → inputs root source options)
    (h : Steady limit c inputs c') (hj : j.Sound limit options c root) :
    ((Compiler.own limit options).advance j c').1.Sound limit options c root ∧
      Steady limit c inputs ((Compiler.own limit options).advance j c').2 := by
  cases hj with
  | waiting =>
      have hstore := store_start h.memory (Compiler.own limit options) root
      have hlook := h.look (c'.library.lasts_contents root)
      obtain ⟨⟨_, _⟩, rfl, -, ⟨source, text, hsource, hkeeps, hstart⟩ | ⟨key, hstart, hkey⟩⟩ :=
        start_cases (Compiler.own limit options) root c'
      · rw [hstart] at hstore
        obtain rfl : _ = c'.store := hstore
        rw [Compiler.advance, hstart]
        rw [h.lasts.served] at hsource
        have hown := (h.rightful _ _ hkeeps).eq_alone hapart (hinput source hsource)
        exact ⟨.done ⟨fun _ houtput ↦ Except.ok.inj houtput ▸ rfl, hown.symm⟩, hlook⟩
      · rw [hstart] at hstore
        obtain rfl : _ = c'.store := hstore
        rw [Compiler.advance, hstart]
        rw [h.lasts.served] at hkey
        exact ⟨.open_ hkey, hlook⟩
  | @open_ key hkey =>
      obtain ⟨l, hlasts, hrun⟩ := run_own limit options root c'
      have hown : ((Compiler.own limit options).run root c'.uncached).1.map (madeOutput root) =
          alone limit options c root :=
        run_eq_alone h.lasts
      rw [Compiler.advance, hrun]
      generalize ((Compiler.own limit options).run root c'.uncached).1 = result at hown ⊢
      rcases result with e | ⟨text, requests⟩
      · exact ⟨.done ⟨fun _ houtput ↦ (nomatch houtput), by rw [← hown]; rfl⟩, h.look hlasts⟩
      · exact ⟨.made hkey (by rw [← hown]; rfl), h.look hlasts⟩
  | @made key text requests hkey htext =>
      refine ⟨.done ⟨fun _ houtput ↦ Except.ok.inj houtput ▸ rfl, htext.symm⟩, ?_⟩
      cases key with
      | none => exact h
      | some key =>
          obtain ⟨source, hsource, rfl⟩ := hkey key rfl
          exact h.keep ⟨root, source, options, hinput source hsource, hsource, rfl, htext⟩
  | done hfits => exact ⟨.done hfits, h⟩

/-- Whether sessions of some roots have come this far with nothing wrong. -/
structure AllSound (limit : Option Duration) (options : CompileOptions) (c : Context)
    (inputs : String → Bytes → CompileOptions → Prop) (roots : List String)
    (s : List Job × Context) : Prop where
  steady : Steady limit c inputs s.2
  length : s.1.length = roots.length
  jobs : ∀ (i : Nat) (root : String) (j : Job), roots[i]? = some root → s.1[i]? = some j →
    j.Sound limit options c root

variable {roots : List String} {s : List Job × Context}

theorem AllSound.turn (hapart : Cache.DigestsApart inputs)
    (hinputs : ∀ root ∈ roots, ∀ source, c.library.served root = some source →
      inputs root source options)
    (h : AllSound limit options c inputs roots s) (i : Nat) :
    AllSound limit options c inputs roots ((Compiler.own limit options).turn s i) := by
  rw [Compiler.turn]
  cases hj : s.1[i]? with
  | none => exact h
  | some j =>
      obtain ⟨hi, -⟩ := List.getElem?_eq_some_iff.mp hj
      obtain ⟨root, hroot⟩ : ∃ root, roots[i]? = some root :=
        ⟨_, List.getElem?_eq_getElem (h.length ▸ hi)⟩
      obtain ⟨hsound, hsteady⟩ := sound_advance hapart (hinputs root (List.mem_of_getElem? hroot))
        h.steady (h.jobs i root j hroot hj)
      refine ⟨hsteady, List.length_set.trans h.length, fun i' root' j' hroot' hj' ↦ ?_⟩
      by_cases hsame : i = i'
      · subst hsame
        rw [List.getElem?_set_self hi] at hj'
        obtain rfl := Option.some.inj hj'
        obtain rfl := Option.some.inj (hroot.symm.trans hroot')
        exact hsound
      · rw [List.getElem?_set_ne hsame] at hj'
        exact h.jobs i' root' j' hroot' hj'

theorem AllSound.turns (hapart : Cache.DigestsApart inputs)
    (hinputs : ∀ root ∈ roots, ∀ source, c.library.served root = some source →
      inputs root source options)
    (h : AllSound limit options c inputs roots s) (order : List Nat) :
    AllSound limit options c inputs roots ((Compiler.own limit options).turns order s) := by
  induction order generalizing s with
  | nil => exact h
  | cons i order ih => exact ih (h.turn hapart hinputs i)

end Preserved

/-! ## What sessions come to -/

/-- Whether sessions at the same time come to what compiling each root alone comes to, and keep
nothing but what compiling a root alone makes under its key. -/
structure AsAlone (limit : Option Duration) (options : CompileOptions) (c : Context)
    (inputs : String → Bytes → CompileOptions → Prop) (roots : List String)
    (results : List SessionResult) (c' : Context) : Prop where
  length : results.length = roots.length
  fits : ∀ (i : Nat) (root : String) (result : SessionResult), roots[i]? = some root →
    results[i]? = some result → Fits limit options c root result
  rightful : ∀ key text, c'.Keeps key text → Rightful limit c inputs key text
  only : ∀ root source o text, inputs root source o → c'.Keeps (Cache.key root source o) text →
    (alone limit o c root).map SessionOutput.text = .ok text

section Together

variable {limit : Option Duration} {options : CompileOptions} {c c' : Context}
  {inputs : String → Bytes → CompileOptions → Prop} {roots : List String}

/-- At the beginning nothing has gone wrong. -/
theorem allSound_waiting (hmemory : c.InMemory)
    (hkept : ∀ key text, c.Keeps key text → Rightful limit c inputs key text) :
    AllSound limit options c inputs roots (roots.map .waiting, c) := by
  refine ⟨⟨.refl _, hmemory, hkept⟩, List.length_map _, fun i root j hroot hj ↦ ?_⟩
  rw [List.getElem?_map, hroot] at hj
  obtain rfl := Option.some.inj hj
  exact .waiting

theorem AllSound.asAlone (hapart : Cache.DigestsApart inputs) {results : List SessionResult}
    (h : AllSound limit options c inputs roots (results.map .done, c')) :
    AsAlone limit options c inputs roots results c' where
  length := (List.length_map _).symm.trans h.length
  fits i root result hroot hresult := by
    have hdone : (results.map Job.done)[i]? = some (.done result) := by
      rw [List.getElem?_map, hresult]
      rfl
    cases h.jobs i root (.done result) hroot hdone with
    | done hfits => exact hfits
  rightful := h.steady.rightful
  only root source o text hinput hkeeps := (h.steady.rightful _ _ hkeeps).eq_alone hapart hinput

/-- Sessions none of which has a step left are done. -/
theorem exists_results {jobs : List Job} (h : ∀ j ∈ jobs, j.left = 0) :
    ∃ results : List SessionResult, jobs = results.map .done := by
  induction jobs with
  | nil => exact ⟨[], rfl⟩
  | cons j jobs ih =>
      obtain ⟨results, rfl⟩ := ih fun j' hj' ↦ h j' (List.mem_cons_of_mem j hj')
      have hleft := h j List.mem_cons_self
      cases j with
      | done result => exact ⟨result :: results, rfl⟩
      | waiting _ => cases hleft
      | open_ _ _ => cases hleft
      | made _ _ _ _ => cases hleft

/-- Sessions at the same time do not disturb each other.  Let files stay as they are, digests of
inputs not collide, and a store in memory have nothing at first but what a compile of an input has
made under its key.  Then sessions of some roots, among which a root may occur many times, are done
when each of them has had three turns; in whatever order the turns have been taken, the results are
those of the roots, in order, with the same text or the same error as compiling each root alone
without a store, and the store has no other text under the key of an input than compiling it alone
makes.  That is how roots are compiled together, however many of them at once. -/
theorem compileAll_undisturbed (hmemory : c.InMemory)
    (hinputs : ∀ root ∈ roots, ∀ source, c.library.served root = some source →
      inputs root source options)
    (hkept : ∀ key text, c.Keeps key text → Rightful limit c inputs key text)
    (hapart : Cache.DigestsApart inputs) :
    (∀ order (results : List SessionResult) c',
      (Compiler.own limit options).turns order (roots.map .waiting, c) = (results.map .done, c') →
      AsAlone limit options c inputs roots results c') ∧
    (∀ order : List Nat, (∀ i < roots.length, 3 ≤ order.count i) →
      ∃ (results : List SessionResult) (c' : Context),
        (Compiler.own limit options).turns order (roots.map .waiting, c) =
          (results.map .done, c')) ∧
    ∀ width, let all := (Compiler.own limit options).compileAll roots width c
      (Compiler.own limit options).Reaches (roots.map .waiting, c) (all.1.map .done, all.2) ∧
      AsAlone limit options c inputs roots all.1 all.2 := by
  have hstart : AllSound limit options c inputs roots (roots.map .waiting, c) :=
    allSound_waiting hmemory hkept
  have hany : ∀ order (results : List SessionResult) c',
      (Compiler.own limit options).turns order (roots.map .waiting, c) = (results.map .done, c') →
      AsAlone limit options c inputs roots results c' := by
    intro order results c' horder
    have hend := hstart.turns hapart hinputs order
    rw [horder] at hend
    exact hend.asAlone hapart
  refine ⟨hany, fun order hcount ↦ ?_, fun width ↦ ?_⟩
  · obtain ⟨results, hresults⟩ := exists_results fun j hj ↦
      (Compiler.own limit options).left_turns_eq_zero c hcount hj
    exact ⟨results, _, Prod.ext hresults rfl⟩
  · have hreaches := (Compiler.own limit options).reaches_compileAll roots width c
    obtain ⟨order, horder⟩ := hreaches
    exact ⟨⟨order, horder⟩, hany order _ _ horder⟩

end Together

/-- Two files. -/
def twoFiles : Library :=
  ⟨.memory (.ofList [("a.ts", bytesOf "let a = 1"), ("b.ts", bytesOf "let b = 2")]),
    ⟨.empty, .empty, 0⟩⟩

/-- Output has been made of one of them. -/
def oneKept : Context :=
  ⟨twoFiles, .memory (.ofList [(Cache.key "b.ts" (bytesOf "let b = 2")
    { omitsDefaultLibrary := true }, "var b = 2;\n")])⟩

/-- What the two files can be compiled as. -/
inductive OfTwo : String → Bytes → CompileOptions → Prop where
  | first : OfTwo "a.ts" (bytesOf "let a = 1") { omitsDefaultLibrary := true }
  | second : OfTwo "b.ts" (bytesOf "let b = 2") { omitsDefaultLibrary := true }

theorem ofTwo_of_served {root : String} {source : Bytes}
    (h : twoFiles.served root = some source) :
    OfTwo root source { omitsDefaultLibrary := true } := by
  have hget : (Table.ofList [("a.ts", bytesOf "let a = 1"), ("b.ts", bytesOf "let b = 2")]).get?
      root = some source := h
  have hmem := Table.mem_entries_of_get? hget
  rcases List.mem_cons.mp hmem with hlast | hrest
  · obtain ⟨rfl, rfl⟩ := Prod.mk.inj hlast
    exact .second
  · obtain ⟨rfl, rfl⟩ := Prod.mk.inj (List.mem_singleton.mp hrest)
    exact .first

theorem digestsApart_ofTwo : Cache.DigestsApart OfTwo := by
  have hsources : Cache.digestBytes (bytesOf "let a = 1") ≠
      Cache.digestBytes (bytesOf "let b = 2") := by
    decide +kernel
  have hmaterials : Cache.digestBytes
      (Cache.material "a.ts" (bytesOf "let a = 1") { omitsDefaultLibrary := true }) ≠
      Cache.digestBytes
        (Cache.material "b.ts" (bytesOf "let b = 2") { omitsDefaultLibrary := true }) := by
    decide +kernel
  refine ⟨fun h h' hsame ↦ ?_, fun h h' hsame ↦ ?_⟩
  · rcases h with _ | _ <;> rcases h' with _ | _
    · rfl
    · exact absurd hsame hsources
    · exact absurd hsame.symm hsources
    · rfl
  · rcases h with _ | _ <;> rcases h' with _ | _
    · rfl
    · exact absurd hsame hmaterials
    · exact absurd hsame.symm hmaterials
    · rfl

theorem rightful_oneKept (key text : String) (h : oneKept.Keeps key text) :
    Rightful none oneKept OfTwo key text := by
  have hget : (Table.ofList [(Cache.key "b.ts" (bytesOf "let b = 2")
      { omitsDefaultLibrary := true }, "var b = 2;\n")]).get? key = some text := h
  obtain ⟨rfl, rfl⟩ := Prod.mk.inj (List.mem_singleton.mp (Table.mem_entries_of_get? hget))
  exact ⟨"b.ts", bytesOf "let b = 2", { omitsDefaultLibrary := true }, .second, rfl, rfl,
    by decide +kernel⟩

/-- One file is compiled twice, with output of the other one in the store and a file that is not
there: two at once, and in an order in which both sessions of the first file have made their output
before either keeps it. -/
theorem compileAll_undisturbed_twice :
    let roots := ["a.ts", "b.ts", "gone.ts", "a.ts"]
    let k := Compiler.own none { omitsDefaultLibrary := true }
    (∃ results c', k.turns [0, 3, 0, 3, 2, 0, 3, 1, 2, 1, 2, 1] (roots.map .waiting, oneKept) =
        (results.map .done, c') ∧
      AsAlone none { omitsDefaultLibrary := true } oneKept OfTwo roots results c') ∧
    AsAlone none { omitsDefaultLibrary := true } oneKept OfTwo roots
      (k.compileAll roots 2 oneKept).1 (k.compileAll roots 2 oneKept).2 := by
  intro roots k
  obtain ⟨hany, hdone, hall⟩ :=
    @compileAll_undisturbed none { omitsDefaultLibrary := true } oneKept OfTwo roots ⟨_, rfl⟩
      (fun _ _ _ hsource ↦ ofTwo_of_served hsource) rightful_oneKept digestsApart_ofTwo
  obtain ⟨results, c', hresults⟩ := hdone [0, 3, 0, 3, 2, 0, 3, 1, 2, 1, 2, 1] (by decide)
  exact ⟨⟨results, c', hresults, hany _ results c' hresults⟩, (hall 2).2⟩

end PipedCompiler.Session
