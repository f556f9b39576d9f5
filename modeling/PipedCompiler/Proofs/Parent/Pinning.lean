import Mathlib.Data.List.Induction
import PipedCompiler.Parent.Serving

/-!
# Answers that are remembered

A place whose answers are remembered stands before another one that may say something else at every
moment, or fail.  All that counts of the past is the memo, and of the memo only what it has about the
path that is asked about; so a history of calls is followed path by path.  What a path is remembered
with is what it has been answered with since all was last forgotten: `Remembers` says so, every call
keeps it, and each call is decided by it.
-/

namespace PipedCompiler.Bridge

open PipedCompiler.Text

/-- The response to a request, when this has been found. -/
def Request.responseOf (r : Request) (found : Option Bytes) : Response :=
  match r.kind with
  | .contents => .ofContents found
  | .presence => .presence found.isSome

end PipedCompiler.Bridge

namespace PipedCompiler.Parent

open PipedCompiler.Text PipedCompiler.Bridge

/-! ## Lookups -/

section LookUp

variable {ρ : Type} [Resolver ρ]

/-- What looking up comes to, as the response to a request. -/
def lookUp (r : Request) (s : ρ) : Except IoError Response × ρ :=
  match r.kind with
  | .contents =>
    let (found, s) := Resolver.contents r.path s
    (found.map .ofContents, s)
  | .presence =>
    let (found, s) := Resolver.presence r.path s
    (found.map .presence, s)

theorem map_presenceOf (found : Except IoError (Option Bytes)) :
    (presenceOf found).map .presence =
      found.map fun found ↦ Response.presence found.isSome := by
  cases found <;> rfl

namespace Memoized

/-- Both kinds of requests are answered from contents. -/
theorem lookUp_eq (r : Request) (m : Memoized ρ) :
    lookUp r m = ((m.contents r.path).1.map r.responseOf, (m.contents r.path).2) := by
  obtain ⟨kind, path⟩ := r
  cases kind with
  | contents => rfl
  | presence =>
      show ((presenceOf (m.contents path).1).map Response.presence, (m.contents path).2) = _
      rw [map_presenceOf]
      rfl

variable {m : Memoized ρ} {path : String} {found : Option Bytes} {s : ρ} {e : IoError}

/-- What is remembered is said again, and nothing else is asked. -/
theorem contents_known (h : m.memo.get? path = some found) :
    m.contents path = (.ok found, m) := by
  rw [contents, remember, h]

/-- What is found is remembered. -/
theorem contents_found (h : m.memo.get? path = none)
    (hinner : Resolver.contents path m.inner = (.ok found, s)) :
    m.contents path = (.ok found, ⟨m.memo.insert path found, s⟩) := by
  rw [contents, remember, h]
  dsimp only
  rw [hinner]

/-- A failure is not remembered. -/
theorem contents_failed (h : m.memo.get? path = none)
    (hinner : Resolver.contents path m.inner = (.error e, s)) :
    m.contents path = (.error e, ⟨m.memo, s⟩) := by
  rw [contents, remember, h]
  dsimp only
  rw [hinner]

end Memoized

/-- A library that remembers is a place whose answers are remembered, before the library within. -/
theorem Library.contents_memoized (memo : Table (Option Bytes)) (inner : Sources) (w : World)
    (path : String) :
    (Library.mk (.memoized memo inner) w).contents path =
      let (found, m) := (Memoized.mk memo (Library.mk inner w)).contents path
      (found, ⟨.memoized m.memo m.inner.sources, m.inner.world⟩) := by
  rw [Library.contents, Sources.contents]
  cases hmemo : memo.get? path with
  | some known => simp only [remember, hmemo, Memoized.contents]
  | none =>
      simp only [remember, hmemo, Memoized.contents, Resolver.contents, Library.contents]
      rcases inner.contents path w with ⟨_ | found, inner', w'⟩ <;> rfl

end LookUp

/-! ## Histories of calls -/

/-- A place that may answer differently at every moment, with a record of what it has been asked. -/
structure Live where
  answers : String → Except IoError (Option Bytes)
  asked : List Request

instance : Resolver Live where
  contents path s := (s.answers path, { s with asked := s.asked ++ [⟨.contents, path⟩] })
  presence path s :=
    (presenceOf (s.answers path), { s with asked := s.asked ++ [⟨.presence, path⟩] })

/-- What can be wanted of a place whose answers are remembered. -/
inductive Wish where
  | response (r : Request)
  /-- That all is forgotten. -/
  | clearing

/-- Something that is wanted, at a moment when the place itself would give these answers. -/
structure Moment where
  answers : String → Except IoError (Option Bytes)
  wish : Wish

/-- What has come of a wish. -/
inductive Entry where
  /-- A request has been answered.  `live` is what the place itself has about the path at the moment,
  and `asked` what it has been asked. -/
  | answered (r : Request) (live : Except IoError (Option Bytes))
      (result : Except IoError Response) (asked : List Request)
  | cleared

namespace Memoized

/-- Fulfils a wish. -/
def fulfil (m : Memoized Live) (x : Moment) : Entry × Memoized Live :=
  match x.wish with
  | .response r =>
    let (result, m) := lookUp r { m with inner := ⟨x.answers, []⟩ }
    (.answered r (x.answers r.path) result m.inner.asked, m)
  | .clearing => (.cleared, m.clear)

/-- What comes of some wishes, and what is remembered then. -/
def fulfilAll : List Moment → Memoized Live → List Entry × Memoized Live
  | [], m => ([], m)
  | x :: xs, m =>
    let (e, m) := m.fulfil x
    let (es, m) := fulfilAll xs m
    (e :: es, m)

end Memoized

/-- What is said about a path, depending on what is remembered of it. -/
def said (known : Option (Option Bytes)) (live : Except IoError (Option Bytes)) :
    Except IoError (Option Bytes) :=
  match known with
  | some found => .ok found
  | none => live

/-! ## What decides a call -/

/-- A request is answered by what is said about its path, and that is remembered. -/
theorem fulfil_response (answers : String → Except IoError (Option Bytes)) (r : Request)
    (m : Memoized Live) : ∃ m',
      m.fulfil ⟨answers, .response r⟩ =
        (.answered r (answers r.path) ((said (m.memo.get? r.path) (answers r.path)).map r.responseOf)
          (if (m.memo.get? r.path).isSome then [] else [⟨.contents, r.path⟩]), m') ∧
      ∀ path, m'.memo.get? path =
        if r.path = path then (said (m.memo.get? r.path) (answers r.path)).toOption
        else m.memo.get? path := by
  let live : Memoized Live := { m with inner := ⟨answers, []⟩ }
  simp only [Memoized.fulfil, Memoized.lookUp_eq]
  cases hknown : m.memo.get? r.path with
  | some found =>
      refine ⟨live, ?_, fun path ↦ ?_⟩
      · rw [Memoized.contents_known (m := live) hknown]
        rfl
      · by_cases hpath : r.path = path
        · rw [if_pos hpath, ← hpath]
          exact hknown
        · rw [if_neg hpath]
  | none =>
      cases hlive : answers r.path with
      | error e =>
          refine ⟨⟨m.memo, ⟨answers, [⟨.contents, r.path⟩]⟩⟩, ?_, fun path ↦ ?_⟩
          · rw [Memoized.contents_failed (m := live) hknown (congrArg (·, _) hlive)]
            rfl
          · by_cases hpath : r.path = path
            · rw [if_pos hpath, ← hpath]
              exact hknown
            · rw [if_neg hpath]
      | ok found =>
          refine ⟨⟨m.memo.insert r.path found, ⟨answers, [⟨.contents, r.path⟩]⟩⟩, ?_, fun path ↦ ?_⟩
          · rw [Memoized.contents_found (m := live) hknown (congrArg (·, _) hlive)]
            rfl
          · rw [Table.get?_insert]
            rfl

section History

variable {m m' : Memoized Live} {xs ys : List Moment} {path : String}

theorem fulfilAll_append (m : Memoized Live) (xs ys : List Moment) :
    m.fulfilAll (xs ++ ys) = ((m.fulfilAll xs).1 ++ ((m.fulfilAll xs).2.fulfilAll ys).1,
      ((m.fulfilAll xs).2.fulfilAll ys).2) := by
  induction xs generalizing m with
  | nil => rfl
  | cons x xs ih => simp only [List.cons_append, Memoized.fulfilAll, ih]

theorem length_fulfilAll (m : Memoized Live) (xs : List Moment) :
    (m.fulfilAll xs).1.length = xs.length := by
  induction xs generalizing m with
  | nil => rfl
  | cons x xs ih => exact congrArg (· + 1) (ih (m.fulfil x).2)

/-- The beginning of what has come of some wishes is what has come of the first of them. -/
theorem exists_of_fulfilAll_eq_append {es es' : List Entry} (h : (m.fulfilAll xs).1 = es ++ es') :
    ∃ ys zs, xs = ys ++ zs ∧ (m.fulfilAll ys).1 = es ∧
      ((m.fulfilAll ys).2.fulfilAll zs).1 = es' := by
  refine ⟨xs.take es.length, xs.drop es.length, (List.take_append_drop _ _).symm, ?_⟩
  have hlength : es.length ≤ xs.length := by
    rw [← length_fulfilAll m xs, h, List.length_append]
    omega
  rw [← List.take_append_drop es.length xs, fulfilAll_append] at h
  refine List.append_inj h ?_
  rw [length_fulfilAll, List.length_take, Nat.min_eq_left hlength]

/-! ## What is remembered -/

/-- Whether something has come of a wish, and nothing has been forgotten since. -/
def Since (es : List Entry) (e : Entry) : Prop :=
  ∃ before after, es = before ++ e :: after ∧ .cleared ∉ after

theorem since_concat {es : List Entry} {e e' : Entry} :
    Since (es ++ [e']) e ↔ e = e' ∨ e' ≠ .cleared ∧ Since es e := by
  constructor
  · rintro ⟨before, after, hes, hafter⟩
    cases after using List.reverseRecOn with
    | nil =>
        obtain ⟨-, hlast⟩ := List.append_inj' hes rfl
        exact .inl (List.cons.inj hlast).1.symm
    | append_singleton after last =>
        rw [← List.cons_append, ← List.append_assoc] at hes
        obtain ⟨rfl, hlast⟩ := List.append_inj' hes rfl
        obtain rfl := (List.cons.inj hlast).1
        rw [List.mem_append, not_or, List.mem_singleton] at hafter
        exact .inr ⟨fun h ↦ hafter.2 h.symm, before, after, rfl, hafter.1⟩
  · rintro (rfl | ⟨hlast, before, after, rfl, hafter⟩)
    · exact ⟨es, [], rfl, List.not_mem_nil⟩
    · refine ⟨before, after ++ [e'], by simp, ?_⟩
      rw [List.mem_append, not_or, List.mem_singleton]
      exact ⟨hafter, hlast.symm⟩

/-- Whether a path has been answered without a failure since all was last forgotten. -/
def Answered (es : List Entry) (path : String) : Prop :=
  ∃ r live response asked, r.path = path ∧ Since es (.answered r live (.ok response) asked)

/-- Whether a path is remembered with what it has been answered with since all was last
forgotten. -/
structure Remembers (es : List Entry) (path : String) (known : Option (Option Bytes)) : Prop where
  agrees {r : Request} {live : Except IoError (Option Bytes)} {response : Response}
    {asked : List Request} : r.path = path → Since es (.answered r live (.ok response) asked) →
      ∃ found, known = some found ∧ response = r.responseOf found
  answered : known.isSome → Answered es path

theorem Remembers.answered_iff {es : List Entry} {known : Option (Option Bytes)}
    (h : Remembers es path known) : Answered es path ↔ known.isSome := by
  refine ⟨?_, h.answered⟩
  rintro ⟨r, live, response, asked, hpath, hsince⟩
  obtain ⟨found, rfl, -⟩ := h.agrees hpath hsince
  rfl

theorem remembers_nil (path : String) : Remembers [] path none where
  agrees := by
    rintro r live response asked - ⟨before, after, hes, -⟩
    simp at hes
  answered h := by cases h

/-- When all is forgotten, nothing counts that was before. -/
theorem remembers_cleared (es : List Entry) (path : String) :
    Remembers (es ++ [.cleared]) path none where
  agrees := by
    intro r live response asked _ hsince
    rw [since_concat] at hsince
    rcases hsince with hsince | ⟨hcleared, -⟩
    · cases hsince
    · exact absurd rfl hcleared
  answered h := by cases h

/-- A request about another path changes nothing. -/
theorem Remembers.other {es : List Entry} {known : Option (Option Bytes)}
    (h : Remembers es path known) {r : Request} (hpath : r.path ≠ path)
    (live : Except IoError (Option Bytes)) (result : Except IoError Response)
    (asked : List Request) :
    Remembers (es ++ [.answered r live result asked]) path known where
  agrees := by
    intro r' live' response asked' hpath' hsince
    rw [since_concat] at hsince
    rcases hsince with hsince | ⟨-, hsince⟩
    · cases hsince
      exact absurd hpath' hpath
    · exact h.agrees hpath' hsince
  answered hknown := by
    obtain ⟨r', live', response, asked', hpath', hsince⟩ := h.answered hknown
    exact ⟨r', live', response, asked', hpath', since_concat.mpr (.inr ⟨nofun, hsince⟩)⟩

/-- A request is answered by what is said about its path, and the path is remembered so. -/
theorem Remembers.same {es : List Entry} {known : Option (Option Bytes)} {r : Request}
    (h : Remembers es r.path known) (live : Except IoError (Option Bytes)) (asked : List Request) :
    Remembers (es ++ [.answered r live ((said known live).map r.responseOf) asked]) r.path
      (said known live).toOption where
  agrees := by
    intro r' live' response asked' hpath hsince
    rw [since_concat] at hsince
    rcases hsince with hsince | ⟨-, hsince⟩
    · obtain ⟨rfl, -, hresult, -⟩ := Entry.answered.inj hsince
      cases hsaid : said known live with
      | error e =>
          rw [hsaid] at hresult
          cases hresult
      | ok found =>
          rw [hsaid] at hresult
          exact ⟨found, rfl, Except.ok.inj hresult⟩
    · obtain ⟨found, rfl, hresponse⟩ := h.agrees hpath hsince
      exact ⟨found, rfl, hresponse⟩
  answered hknown := by
    cases hsaid : said known live with
    | error e =>
        rw [hsaid] at hknown
        cases hknown
    | ok found =>
        exact ⟨r, live, r.responseOf found, asked, rfl, since_concat.mpr (.inl rfl)⟩

theorem Remembers.fulfil {es : List Entry} (h : Remembers es path (m.memo.get? path))
    (x : Moment) :
    Remembers (es ++ [(m.fulfil x).1]) path ((m.fulfil x).2.memo.get? path) := by
  obtain ⟨answers, r | -⟩ := x
  · obtain ⟨m', hfulfil, hmemo⟩ := fulfil_response answers r m
    rw [hfulfil, hmemo]
    by_cases hpath : r.path = path
    · subst hpath
      rw [if_pos rfl]
      exact h.same _ _
    · rw [if_neg hpath]
      exact h.other hpath _ _ _
  · exact remembers_cleared es path

/-- What is remembered of a path is what it has been answered with. -/
theorem remembers_fulfilAll (live : Live) (xs : List Moment) (path : String) :
    Remembers ((Memoized.start live).fulfilAll xs).1 path
      (((Memoized.start live).fulfilAll xs).2.memo.get? path) := by
  induction xs using List.reverseRecOn with
  | nil => exact remembers_nil path
  | append_singleton xs x ih =>
      rw [fulfilAll_append]
      exact ih.fulfil x

/-! ## What a history comes to -/

/-- Whether a wish can change what is said about a path. -/
def Moment.concerns (path : String) (x : Moment) : Bool :=
  match x.wish with
  | .response r => r.path = path
  | .clearing => true

/-- Whether a wish that can change what is said about a path has come to this. -/
def Entry.concerns (path : String) : Entry → Bool
  | .answered r _ _ _ => r.path = path
  | .cleared => true

theorem concerns_fulfil (m : Memoized Live) (x : Moment) :
    (m.fulfil x).1.concerns path = x.concerns path := by
  obtain ⟨answers, r | -⟩ := x
  · obtain ⟨m', hfulfil, -⟩ := fulfil_response answers r m
    rw [hfulfil]
    rfl
  · rfl

/-- Wishes that do not concern a path can be left out. -/
theorem filter_fulfilAll (hmemo : m.memo.get? path = m'.memo.get? path) (xs : List Moment) :
    (m.fulfilAll xs).1.filter (·.concerns path) =
      (m'.fulfilAll (xs.filter (·.concerns path))).1 := by
  induction xs generalizing m m' with
  | nil => rfl
  | cons x xs ih =>
      rw [Memoized.fulfilAll]
      dsimp only
      rw [List.filter_cons, List.filter_cons, concerns_fulfil]
      obtain ⟨answers, r | -⟩ := x
      · obtain ⟨m₁, hfulfil, hmemo₁⟩ := fulfil_response answers r m
        obtain ⟨m₂, hfulfil', hmemo₂⟩ := fulfil_response answers r m'
        by_cases hpath : r.path = path
        · subst hpath
          have hnext : m₁.memo.get? r.path = m₂.memo.get? r.path := by
            rw [hmemo₁, hmemo₂, if_pos rfl, if_pos rfl, hmemo]
          rw [if_pos (by simp [Moment.concerns]), if_pos (by simp [Moment.concerns]),
            Memoized.fulfilAll, hfulfil, hfulfil']
          dsimp only
          rw [hmemo, ih hnext]
        · have hnext : m₁.memo.get? path = m'.memo.get? path := by
            rw [hmemo₁, if_neg hpath, hmemo]
          rw [if_neg (by simp [Moment.concerns, hpath]), if_neg (by simp [Moment.concerns, hpath]),
            hfulfil]
          exact ih hnext
      · exact congrArg (Entry.cleared :: ·) (ih rfl)

/-- Whether something can have come of a wish. -/
def Entry.Fits (x : Moment) (e : Entry) : Prop :=
  match x.wish, e with
  | .response r, .answered r' live _ _ => r' = r ∧ live = x.answers r.path
  | .clearing, .cleared => True
  | _, _ => False

theorem fits_fulfil (m : Memoized Live) (x : Moment) : Entry.Fits x (m.fulfil x).1 := by
  obtain ⟨answers, r | -⟩ := x
  · obtain ⟨m', hfulfil, -⟩ := fulfil_response answers r m
    rw [hfulfil]
    exact ⟨rfl, rfl⟩
  · trivial

theorem fits_fulfilAll (m : Memoized Live) (xs : List Moment) :
    List.Forall₂ Entry.Fits xs (m.fulfilAll xs).1 := by
  induction xs generalizing m with
  | nil => exact .nil
  | cons x xs ih => exact .cons (fits_fulfil m x) (ih (m.fulfil x).2)

/-- As long as nothing is forgotten, all answers about a path tell of the same. -/
theorem exists_found_of_period {live : Live} {before period after : List Entry}
    (h : ((Memoized.start live).fulfilAll xs).1 = before ++ period ++ after)
    (hperiod : .cleared ∉ period) (path : String) :
    ∃ found, ∀ r live response asked, .answered r live (.ok response) asked ∈ period →
      r.path = path → response = r.responseOf found := by
  obtain ⟨ys, zs, -, hys, -⟩ := exists_of_fulfilAll_eq_append h
  have hremembers := remembers_fulfilAll live ys path
  rw [hys] at hremembers
  refine ⟨(((Memoized.start live).fulfilAll ys).2.memo.get? path).getD none, ?_⟩
  intro r live' response asked hmem hpath
  obtain ⟨earlier, later, rfl⟩ := List.append_of_mem hmem
  have hsince : Since (before ++ (earlier ++ .answered r live' (.ok response) asked :: later))
      (.answered r live' (.ok response) asked) := by
    refine ⟨before ++ earlier, later, by simp, fun hlater ↦ hperiod ?_⟩
    exact List.mem_append_right _ (List.mem_cons_of_mem _ hlater)
  obtain ⟨found, hknown, hresponse⟩ := hremembers.agrees hpath hsince
  rw [hknown]
  exact hresponse

/-- Whether the place itself is asked is decided by whether the path has been answered. -/
theorem asked_of_entry {live : Live} {before after : List Entry} {r : Request}
    {live' : Except IoError (Option Bytes)} {result : Except IoError Response}
    {asked : List Request}
    (h : ((Memoized.start live).fulfilAll xs).1 =
      before ++ .answered r live' result asked :: after) :
    (Answered before r.path → asked = [] ∧ ∃ response, result = .ok response) ∧
      (¬ Answered before r.path →
        asked = [⟨.contents, r.path⟩] ∧ result = live'.map r.responseOf) := by
  obtain ⟨ys, zs, -, rfl, hzs⟩ := exists_of_fulfilAll_eq_append h
  rw [(remembers_fulfilAll live ys r.path).answered_iff]
  rcases zs with _ | ⟨⟨answers, r' | -⟩, zs⟩
  · cases hzs
  · obtain ⟨m', hfulfil, -⟩ :=
      fulfil_response answers r' ((Memoized.start live).fulfilAll ys).2
    rw [Memoized.fulfilAll, hfulfil] at hzs
    obtain ⟨rfl, rfl, rfl, rfl⟩ := Entry.answered.inj (List.cons.inj hzs).1
    cases ((Memoized.start live).fulfilAll ys).2.memo.get? r'.path with
    | some found => exact ⟨fun _ ↦ ⟨rfl, r'.responseOf found, rfl⟩, fun h ↦ absurd rfl h⟩
    | none => exact ⟨nofun, fun _ ↦ ⟨rfl, rfl⟩⟩
  · cases (List.cons.inj hzs).1

/-- A place whose answers are remembered stands by what it has said, whatever becomes of the place
behind it.  Until all is forgotten, all answers about a path tell of the same contents, or of none.
A path that has been answered is not asked about any more; before that the place itself is asked,
once, and its answer is given, so a failure is passed on and does not count later.  And what is done
about other paths can be left out. -/
theorem Memoized.answers_pinned (live : Live) (xs : List Moment) :
    let es := ((Memoized.start live).fulfilAll xs).1
    List.Forall₂ Entry.Fits xs es ∧
    (∀ before period after, es = before ++ period ++ after → .cleared ∉ period → ∀ path,
      ∃ found, ∀ r live response asked, .answered r live (.ok response) asked ∈ period →
        r.path = path → response = r.responseOf found) ∧
    (∀ before r live result asked after, es = before ++ .answered r live result asked :: after →
      (Answered before r.path → asked = [] ∧ ∃ response, result = .ok response) ∧
      (¬ Answered before r.path →
        asked = [⟨.contents, r.path⟩] ∧ result = live.map r.responseOf)) ∧
    ∀ path, es.filter (·.concerns path) =
      ((Memoized.start live).fulfilAll (xs.filter (·.concerns path))).1 := by
  refine ⟨fits_fulfilAll _ xs, ?_, ?_, ?_⟩
  · intro before period after h hperiod path
    exact exists_found_of_period h hperiod path
  · intro before r live' result asked after h
    exact asked_of_entry h
  · intro path
    exact filter_fulfilAll rfl xs

/-- A failure, then contents, which stay as they were when the file changes. -/
example :
    ((Memoized.start ⟨fun _ ↦ .ok none, []⟩).fulfilAll
      [⟨fun _ ↦ .error ⟨.other, "denied"⟩, .response ⟨.contents, "a.ts"⟩⟩,
        ⟨fun _ ↦ .ok (some [1]), .response ⟨.presence, "a.ts"⟩⟩,
        ⟨fun _ ↦ .ok (some [2]), .response ⟨.contents, "a.ts"⟩⟩]).1 =
      [.answered ⟨.contents, "a.ts"⟩ (.error ⟨.other, "denied"⟩) (.error ⟨.other, "denied"⟩)
          [⟨.contents, "a.ts"⟩],
        .answered ⟨.presence, "a.ts"⟩ (.ok (some [1])) (.ok (.presence true))
          [⟨.contents, "a.ts"⟩],
        .answered ⟨.contents, "a.ts"⟩ (.ok (some [2])) (.ok (.contents [1])) []] :=
  rfl

end History

end PipedCompiler.Parent
