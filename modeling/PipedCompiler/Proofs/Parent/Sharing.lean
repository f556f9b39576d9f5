import Mathlib.Logic.Function.Basic
import PipedCompiler.Proofs.Parent.Pinning

/-!
# A memo that is shared

Sessions that run at the same time can share a place whose answers are remembered.  A call is not one
step then: the memo is looked into, the place itself is asked, and what it has found is remembered,
and between these steps other sessions take theirs and the files may change.

So two calls can both miss the same path, find different things, and remember them one after the
other.  That is all that can go wrong: an answer that is given while no call has missed its path
stays the answer to all sessions.
-/

namespace PipedCompiler.Parent

open PipedCompiler.Text PipedCompiler.Bridge

/-- How far a call has come that has not found its path in the memo. -/
inductive Underway where
  /-- The place itself is to be asked. -/
  | missed (r : Request)
  /-- What it has found is to be remembered. -/
  | found (r : Request) (contents : Option Bytes)

/-- What a call is about. -/
def Underway.request : Underway → Request
  | .missed r => r
  | .found r _ => r

/-- A place whose answers are remembered, and the sessions that share it. -/
structure Shared where
  memo : Table (Option Bytes)
  /-- What the place itself answers at the moment. -/
  answers : String → Except IoError (Option Bytes)
  /-- The call that a session is in. -/
  underway : Nat → Option Underway

/-- What can happen next. -/
inductive Move where
  /-- A session that is in no call begins one, by looking into the memo. -/
  | call (session : Nat) (r : Request)
  /-- A session takes the next step of the call that it is in. -/
  | advance (session : Nat)
  /-- From now on the place itself gives these answers. -/
  | change (answers : String → Except IoError (Option Bytes))

/-- An answer to a session. -/
structure Reply where
  session : Nat
  request : Request
  result : Except IoError Response

namespace Shared

/-- Nobody has asked anything yet. -/
def start (answers : String → Except IoError (Option Bytes)) : Shared :=
  ⟨.empty, answers, fun _ ↦ none⟩

/-- A session gets into a call, or out of it. -/
def setUnderway (s : Shared) (session : Nat) (u : Option Underway) : Shared :=
  { s with underway := Function.update s.underway session u }

theorem underway_setUnderway (s : Shared) (i j : Nat) (u : Option Underway) :
    (s.setUnderway i u).underway j = if j = i then u else s.underway j :=
  Function.update_apply _ _ _ _

/-- Makes a move.  It may give an answer to a session. -/
def move (s : Shared) : Move → Option Reply × Shared
  | .call i r =>
    match s.underway i with
    | some _ => (none, s)
    | none =>
      match s.memo.get? r.path with
      | some found => (some ⟨i, r, .ok (r.responseOf found)⟩, s)
      | none => (none, s.setUnderway i (some (.missed r)))
  | .advance i =>
    match s.underway i with
    | none => (none, s)
    | some (.missed r) =>
      match s.answers r.path with
      | .ok found => (none, s.setUnderway i (some (.found r found)))
      | .error e => (some ⟨i, r, .error e⟩, s.setUnderway i none)
    | some (.found r found) =>
      (some ⟨i, r, .ok (r.responseOf found)⟩,
        { s with memo := s.memo.insert r.path found }.setUnderway i none)
  | .change answers => (none, { s with answers })

/-- Makes moves, and gives all answers in order. -/
def play : List Move → Shared → List Reply × Shared
  | [], s => ([], s)
  | x :: xs, s =>
    let (reply, s) := s.move x
    let (replies, s) := play xs s
    (reply.toList ++ replies, s)

variable {s s' : Shared} {path : String} {found : Option Bytes}

/-- A call that nothing comes between is a lookup. -/
theorem play_uninterrupted (s : Shared) {i : Nat} (h : s.underway i = none) (r : Request) :
    s.play [.call i r, .advance i, .advance i] =
      ([⟨i, r, (lookUp r (Memoized.mk s.memo (⟨s.answers, []⟩ : Live))).1⟩],
        { s with memo := (lookUp r (Memoized.mk s.memo (⟨s.answers, []⟩ : Live))).2.memo }) := by
  rw [Memoized.lookUp_eq]
  cases hmemo : s.memo.get? r.path with
  | some found =>
      rw [Memoized.contents_known hmemo]
      simp [play, move, h, hmemo, Except.map]
  | none =>
      cases hanswer : s.answers r.path with
      | error e =>
          rw [Memoized.contents_failed hmemo (congrArg (·, _) hanswer)]
          simp [play, move, h, hmemo, hanswer, setUnderway, Except.map]
      | ok found =>
          rw [Memoized.contents_found hmemo (congrArg (·, _) hanswer)]
          simp [play, move, h, hmemo, hanswer, setUnderway, Except.map]

/-- All that a move can come to. -/
inductive Moved (s : Shared) : Option Reply → Shared → Prop where
  /-- There was nothing to do. -/
  | still : Moved s none s
  | changed (answers : String → Except IoError (Option Bytes)) : Moved s none { s with answers }
  | hit {i : Nat} {r : Request} {found : Option Bytes} (known : s.memo.get? r.path = some found) :
      Moved s (some ⟨i, r, .ok (r.responseOf found)⟩) s
  | missed {i : Nat} {r : Request} (unknown : s.memo.get? r.path = none) :
      Moved s none (s.setUnderway i (some (.missed r)))
  | found {i : Nat} {r : Request} (found : Option Bytes)
      (underway : s.underway i = some (.missed r)) :
      Moved s none (s.setUnderway i (some (.found r found)))
  | failed {i : Nat} {r : Request} (e : IoError) (underway : s.underway i = some (.missed r)) :
      Moved s (some ⟨i, r, .error e⟩) (s.setUnderway i none)
  | kept {i : Nat} {r : Request} {found : Option Bytes}
      (underway : s.underway i = some (.found r found)) :
      Moved s (some ⟨i, r, .ok (r.responseOf found)⟩)
        ({ s with memo := s.memo.insert r.path found }.setUnderway i none)

theorem moved_move (s : Shared) (x : Move) : Moved s (s.move x).1 (s.move x).2 := by
  cases x with
  | change answers => exact .changed answers
  | call i r =>
      cases hunderway : s.underway i with
      | some u =>
          simp only [move, hunderway]
          exact .still
      | none =>
          cases hmemo : s.memo.get? r.path with
          | some found =>
              simp only [move, hunderway, hmemo]
              exact .hit hmemo
          | none =>
              simp only [move, hunderway, hmemo]
              exact .missed hmemo
  | advance i =>
      rcases hunderway : s.underway i with _ | r | ⟨r, found⟩
      · simp only [move, hunderway]
        exact .still
      · cases hanswer : s.answers r.path with
        | ok found =>
            simp only [move, hunderway, hanswer]
            exact .found found hunderway
        | error e =>
            simp only [move, hunderway, hanswer]
            exact .failed e hunderway
      · simp only [move, hunderway]
        exact .kept hunderway

/-! ## What has been answered -/

/-- Whether some session is in a call that has missed the path. -/
def Missing (s : Shared) (path : String) : Prop :=
  ∃ i u, s.underway i = some u ∧ u.request.path = path

/-- Whether this is remembered of a path, and no call is about to remember anything else. -/
structure Settled (s : Shared) (path : String) (found : Option Bytes) : Prop where
  known : s.memo.get? path = some found
  quiet : ¬ s.Missing path

theorem Settled.ne_of_underway (h : s.Settled path found) {i : Nat} {u : Underway}
    (hu : s.underway i = some u) : u.request.path ≠ path :=
  fun hpath ↦ h.quiet ⟨i, u, hu, hpath⟩

/-- A call about another path may begin, go on or end. -/
theorem Settled.setUnderway (h : s.Settled path found) (i : Nat) {u : Option Underway}
    (hu : ∀ u' ∈ u, u'.request.path ≠ path) : (s.setUnderway i u).Settled path found where
  known := h.known
  quiet := by
    rintro ⟨j, u', hj, hpath⟩
    rw [underway_setUnderway] at hj
    split at hj
    · exact hu u' hj hpath
    · exact h.quiet ⟨j, u', hj, hpath⟩

/-- Something else may be remembered of another path. -/
theorem Settled.insert (h : s.Settled path found) {other : String} (hother : other ≠ path)
    (found' : Option Bytes) : { s with memo := s.memo.insert other found' }.Settled path found where
  known := by rw [Table.get?_insert, if_neg hother, h.known]
  quiet := h.quiet

/-- What is settled stays so, and is what every session is told. -/
theorem Settled.moved {reply : Option Reply} (h : s.Settled path found) (hmove : Moved s reply s') :
    s'.Settled path found ∧ ∀ told ∈ reply, told.request.path = path →
      told.result = .ok (told.request.responseOf found) := by
  cases hmove with
  | still => exact ⟨h, nofun⟩
  | changed answers => exact ⟨⟨h.known, h.quiet⟩, nofun⟩
  | @hit i r found' hmemo =>
      refine ⟨h, ?_⟩
      rintro _ ⟨⟩ rfl
      obtain rfl := Option.some.inj (hmemo.symm.trans h.known)
      rfl
  | @missed i r hmemo =>
      refine ⟨h.setUnderway i ?_, nofun⟩
      rintro _ ⟨⟩ rfl
      cases hmemo.symm.trans h.known
  | @found i r found' hunderway =>
      have hother : r.path ≠ path := h.ne_of_underway hunderway
      refine ⟨h.setUnderway i ?_, nofun⟩
      rintro _ ⟨⟩
      exact hother
  | @failed i r e hunderway =>
      refine ⟨h.setUnderway i nofun, ?_⟩
      rintro _ ⟨⟩ hpath
      exact absurd hpath (h.ne_of_underway hunderway)
  | @kept i r found' hunderway =>
      have hother := h.ne_of_underway hunderway
      refine ⟨(h.insert hother found').setUnderway i nofun, ?_⟩
      rintro _ ⟨⟩ hpath
      exact absurd hpath hother

theorem Settled.play (h : s.Settled path found) (xs : List Move) :
    ∀ reply ∈ (s.play xs).1, reply.request.path = path →
      reply.result = .ok (reply.request.responseOf found) := by
  induction xs generalizing s with
  | nil => exact fun reply hreply ↦ absurd hreply List.not_mem_nil
  | cons x xs ih =>
      obtain ⟨hnext, hreply⟩ := h.moved (s.moved_move x)
      intro reply hmem hpath
      rcases List.mem_append.mp hmem with hmem | hmem
      · exact hreply reply (Option.mem_toList.mp hmem) hpath
      · exact ih hnext reply hmem hpath

/-- What a session has been told is remembered. -/
theorem known_of_moved {i : Nat} {r : Request} {response : Response}
    (hmove : Moved s (some ⟨i, r, .ok response⟩) s') :
    ∃ found, s'.memo.get? r.path = some found ∧ response = r.responseOf found := by
  cases hmove with
  | @hit _ _ found hmemo => exact ⟨found, hmemo, rfl⟩
  | @kept _ _ found hunderway =>
      exact ⟨found, (Table.get?_insert _ _ _ _).trans (if_pos rfl), rfl⟩

/-- An answer that a session is given while no other call has missed its path is what all sessions
are told of the path from then on. -/
theorem exists_found_of_quiet {x : Move} {i : Nat} {r : Request} {response : Response}
    (hreply : (s.move x).1 = some ⟨i, r, .ok response⟩) (hquiet : ¬ (s.move x).2.Missing r.path)
    (xs : List Move) :
    ∃ found, response = r.responseOf found ∧
      ∀ reply ∈ ((s.move x).2.play xs).1, reply.request.path = r.path →
        reply.result = .ok (reply.request.responseOf found) := by
  have hmove := s.moved_move x
  rw [hreply] at hmove
  obtain ⟨found, hknown, hresponse⟩ := known_of_moved hmove
  exact ⟨found, hresponse, Settled.play ⟨hknown, hquiet⟩ xs⟩

/-! ## One miss at a time -/

/-- Whether two sessions are at once in calls that have missed the path. -/
def Crowded (s : Shared) (path : String) : Prop :=
  ∃ i j u u', i ≠ j ∧ s.underway i = some u ∧ u.request.path = path ∧
    s.underway j = some u' ∧ u'.request.path = path

/-- As long as two calls never miss a path at once, nobody has been told about a path that is not
remembered, and what is remembered is settled. -/
theorem settled_of_moved {reply : Option Reply} (hmove : Moved s reply s')
    (h : s.memo.get? path = none) (hcrowd : ¬ s.Crowded path) :
    (s'.memo.get? path = none ∧ ∀ told ∈ reply, told.request.path = path →
        ∀ response, told.result ≠ .ok response) ∨
      ∃ found, s'.Settled path found ∧ ∀ told ∈ reply, told.request.path = path →
        told.result = .ok (told.request.responseOf found) := by
  cases hmove with
  | still => exact .inl ⟨h, nofun⟩
  | changed answers => exact .inl ⟨h, nofun⟩
  | @hit i r found hmemo =>
      refine .inl ⟨h, ?_⟩
      rintro _ ⟨⟩ rfl
      cases h.symm.trans hmemo
  | missed hmemo => exact .inl ⟨h, nofun⟩
  | found contents hunderway => exact .inl ⟨h, nofun⟩
  | failed e hunderway =>
      refine .inl ⟨h, ?_⟩
      rintro _ ⟨⟩ - response ⟨⟩
  | @kept i r found hunderway =>
      by_cases hpath : r.path = path
      · subst hpath
        refine .inr ⟨found, ⟨(Table.get?_insert _ _ _ _).trans (if_pos rfl), ?_⟩, ?_⟩
        · rintro ⟨j, u, hj, hu⟩
          rw [underway_setUnderway] at hj
          split at hj
          · cases hj
          · next hij => exact hcrowd ⟨j, i, u, _, hij, hj, hu, hunderway, rfl⟩
        · rintro _ ⟨⟩ -
          rfl
      · refine .inl ⟨?_, ?_⟩
        · exact (Table.get?_insert _ _ _ _).trans ((if_neg hpath).trans h)
        · rintro _ ⟨⟩ hpath'
          exact absurd hpath' hpath

theorem exists_found_of_not_crowded (xs : List Move)
    (hcrowd : ∀ ys zs, xs = ys ++ zs → ¬ (s.play ys).2.Crowded path)
    (h : s.memo.get? path = none) :
    ∃ found, ∀ reply ∈ (s.play xs).1, reply.request.path = path →
      ∀ response, reply.result = .ok response → response = reply.request.responseOf found := by
  induction xs generalizing s with
  | nil => exact ⟨none, fun reply hreply ↦ absurd hreply List.not_mem_nil⟩
  | cons x xs ih =>
      rcases settled_of_moved (s.moved_move x) h (hcrowd [] (x :: xs) rfl) with
        ⟨hnext, hreply⟩ | ⟨found, hsettled, hreply⟩
      · obtain ⟨found, hreplies⟩ := ih (fun ys zs hxs ↦ hcrowd (x :: ys) zs (by rw [hxs]; rfl)) hnext
        refine ⟨found, fun reply hmem hpath response hresponse ↦ ?_⟩
        rcases List.mem_append.mp hmem with hmem | hmem
        · exact absurd hresponse (hreply reply (Option.mem_toList.mp hmem) hpath response)
        · exact hreplies reply hmem hpath response hresponse
      · refine ⟨found, fun reply hmem hpath response hresponse ↦ ?_⟩
        have htold : reply.result = .ok (reply.request.responseOf found) := by
          rcases List.mem_append.mp hmem with hmem | hmem
          · exact hreply reply (Option.mem_toList.mp hmem) hpath
          · exact hsettled.play xs reply hmem hpath
        exact Except.ok.inj (hresponse.symm.trans htold)

/-- Sessions that share a place whose answers are remembered are all told of the same contents of a
path, or of none, unless two of them are at once in calls that have missed the path.  Even then all
are told the same from the first answer on at which no other such call is under way. -/
theorem answers_pinned_unless_crowded (answers : String → Except IoError (Option Bytes))
    (xs : List Move) (path : String) :
    ((∀ ys zs, xs = ys ++ zs → ¬ ((start answers).play ys).2.Crowded path) →
      ∃ found, ∀ reply ∈ ((start answers).play xs).1, reply.request.path = path →
        ∀ response, reply.result = .ok response → response = reply.request.responseOf found) ∧
    ∀ ys x zs, xs = ys ++ x :: zs → ∀ i r response,
      (((start answers).play ys).2.move x).1 = some ⟨i, r, .ok response⟩ → r.path = path →
      ¬ (((start answers).play ys).2.move x).2.Missing path →
      ∃ found, response = r.responseOf found ∧
        ∀ reply ∈ ((((start answers).play ys).2.move x).2.play zs).1, reply.request.path = path →
          reply.result = .ok (reply.request.responseOf found) := by
  refine ⟨fun hcrowd ↦ exists_found_of_not_crowded xs hcrowd rfl, ?_⟩
  rintro ys x zs - i r response hreply rfl hquiet
  exact exists_found_of_quiet hreply hquiet zs

/-- Two sessions miss the same file, which changes between their looks at it.  The later one puts
what it has found in the place of what the earlier one has found and told. -/
theorem answers_differ :
    let r : Request := ⟨.contents, "a.ts"⟩
    let moves : List Move := [.call 0 r, .call 1 r, .advance 0,
      .change fun _ ↦ .ok (some [2]), .advance 1, .advance 0, .advance 1, .call 0 r]
    let replies := ((start fun _ ↦ .ok (some [1])).play moves).1
    replies = [⟨0, r, .ok (.contents [1])⟩, ⟨1, r, .ok (.contents [2])⟩,
        ⟨0, r, .ok (.contents [2])⟩] ∧
      ¬ ∃ found, ∀ reply ∈ replies, reply.session = 0 → reply.request.path = "a.ts" →
        ∀ response, reply.result = .ok response → response = reply.request.responseOf found := by
  intro r moves replies
  have hreplies : replies = [⟨0, r, .ok (.contents [1])⟩, ⟨1, r, .ok (.contents [2])⟩,
      ⟨0, r, .ok (.contents [2])⟩] := rfl
  refine ⟨hreplies, ?_⟩
  rintro ⟨found, hfound⟩
  rw [hreplies] at hfound
  have hfirst : Response.contents [1] = r.responseOf found :=
    hfound ⟨0, r, .ok (.contents [1])⟩ (by simp) rfl rfl _ rfl
  have hlast : Response.contents [2] = r.responseOf found :=
    hfound ⟨0, r, .ok (.contents [2])⟩ (by simp) rfl rfl _ rfl
  cases hfirst.trans hlast.symm

end Shared

end PipedCompiler.Parent
