import PipedCompiler.Parent.Serving

/-!
# What a library serves

Looking something up can leave traces: answers are remembered, and lookups are counted.  None of
them can be told from later answers.  As long as its world stays as it is, a library serves the same
files however often and in whatever order it is asked.
-/

namespace PipedCompiler.Parent

open PipedCompiler.Text PipedCompiler.Bridge

namespace Sources

mutual

/-- What looking a path up comes to, when the tree and the shared table are these. -/
def view (t : FileTree) (shared : Table Bytes) :
    Sources → String → Except IoError (Option Bytes)
  | .memory files, path => .ok (files.get? path)
  | .directories roots, path => inDirectories t roots path
  | .chain members, path => viewFirst t shared members path
  | .memoized memo inner, path =>
    match memo.get? path with
    | some known => .ok known
    | none => inner.view t shared path
  | .failing e, _ => .error e
  | .shared, path => .ok (shared.get? path)

/-- What looking a path up in the first place that has it comes to. -/
def viewFirst (t : FileTree) (shared : Table Bytes) :
    List Sources → String → Except IoError (Option Bytes)
  | [], _ => .ok none
  | member :: members, path =>
    match member.view t shared path with
    | .error e => .error e
    | .ok (some bs) => .ok (some bs)
    | .ok none => viewFirst t shared members path

end

/-- Whether a lookup has left the tree and the shared table as they were. -/
structure Kept (w w' : World) : Prop where
  tree : w'.tree = w.tree
  shared : w'.shared = w.shared

theorem Kept.refl (w : World) : Kept w w := ⟨rfl, rfl⟩

theorem Kept.trans {w w' w'' : World} (h : Kept w w') (h' : Kept w' w'') : Kept w w'' :=
  ⟨h'.tree.trans h.tree, h'.shared.trans h.shared⟩

mutual

/-- A lookup comes to what the path looks like, and afterwards every path looks as before. -/
theorem contents_eq (path : String) (w : World) :
    ∀ s : Sources, ∃ s' w', s.contents path w = (s.view w.tree w.shared path, s', w') ∧
      Kept w w' ∧ s'.view w.tree w.shared = s.view w.tree w.shared
  | .memory files => ⟨.memory files, w, by rw [contents, view], .refl w, rfl⟩
  | .directories roots => ⟨.directories roots, w, by rw [contents, view], .refl w, rfl⟩
  | .failing e => ⟨.failing e, w, by rw [contents, view], .refl w, rfl⟩
  | .shared => by
      refine ⟨.shared, { w with lookups := w.lookups + 1 }, ?_, ⟨rfl, rfl⟩, rfl⟩
      rw [contents, view]
  | .chain members => by
      obtain ⟨members', w', hfirst, hw, hview⟩ := contentsOfFirst_eq path w members
      refine ⟨.chain members', w', by rw [contents, view, hfirst], hw, ?_⟩
      funext p
      rw [view, view, hview]
  | .memoized memo inner => by
      obtain ⟨inner', w', hinner, hw, hview⟩ := contents_eq path w inner
      rw [contents, remember]
      cases hmemo : memo.get? path with
      | some known => exact ⟨.memoized memo inner, w, by simp [view, hmemo], .refl w, rfl⟩
      | none =>
          dsimp only
          rw [hinner]
          cases hfound : inner.view w.tree w.shared path with
          | error e =>
              refine ⟨.memoized memo inner', w', by simp [view, hmemo, hfound], hw, ?_⟩
              funext p
              rw [view, view, hview]
          | ok found =>
              refine ⟨.memoized (memo.insert path found) inner', w',
                by simp [view, hmemo, hfound], hw, ?_⟩
              funext p
              rw [view, view, hview, Table.get?_insert]
              by_cases hp : path = p
              · subst hp
                rw [if_pos rfl, hmemo, hfound]
              · rw [if_neg hp]

theorem contentsOfFirst_eq (path : String) (w : World) :
    ∀ members : List Sources, ∃ members' w',
      contentsOfFirst members path w = (viewFirst w.tree w.shared members path, members', w') ∧
        Kept w w' ∧ viewFirst w.tree w.shared members' = viewFirst w.tree w.shared members
  | [] => ⟨[], w, by rw [contentsOfFirst, viewFirst], .refl w, rfl⟩
  | member :: members => by
      obtain ⟨member', w', hmember, hw, hview⟩ := contents_eq path w member
      obtain ⟨members', w'', hmembers, hw', hviews⟩ := contentsOfFirst_eq path w' members
      rw [hw.tree, hw.shared] at hmembers hviews
      rw [contentsOfFirst, hmember]
      rcases hfound : member.view w.tree w.shared path with e | _ | bs
      · refine ⟨member' :: members, w', by rw [viewFirst, hfound], hw, ?_⟩
        funext p
        rw [viewFirst, viewFirst, hview]
      · dsimp only
        rw [hmembers]
        refine ⟨member' :: members', w'', by rw [viewFirst, hfound], hw.trans hw', ?_⟩
        funext p
        rw [viewFirst, viewFirst, hview, hviews]
      · refine ⟨member' :: members, w', by rw [viewFirst, hfound], hw, ?_⟩
        funext p
        rw [viewFirst, viewFirst, hview]

end

mutual

/-- There is a file just if the path looks as if it had contents. -/
theorem presence_eq (path : String) (w : World) :
    ∀ s : Sources, ∃ s' w',
      s.presence path w = (presenceOf (s.view w.tree w.shared path), s', w') ∧
        Kept w w' ∧ s'.view w.tree w.shared = s.view w.tree w.shared
  | .memory files => ⟨.memory files, w, by rw [presence, view]; rfl, .refl w, rfl⟩
  | .directories roots => ⟨.directories roots, w, by rw [presence, view], .refl w, rfl⟩
  | .failing e => ⟨.failing e, w, by rw [presence, view]; rfl, .refl w, rfl⟩
  | .shared => by
      refine ⟨.shared, { w with lookups := w.lookups + 1 }, ?_, ⟨rfl, rfl⟩, rfl⟩
      rw [presence, view]
      rfl
  | .chain members => by
      obtain ⟨members', w', hany, hw, hview⟩ := presenceInAny_eq path w members
      refine ⟨.chain members', w', by rw [presence, view, hany], hw, ?_⟩
      funext p
      rw [view, view, hview]
  | .memoized memo inner => by
      obtain ⟨s', w', hcontents, hw, hview⟩ := contents_eq path w (.memoized memo inner)
      exact ⟨s', w', by rw [presence, hcontents], hw, hview⟩

theorem presenceInAny_eq (path : String) (w : World) :
    ∀ members : List Sources, ∃ members' w',
      presenceInAny members path w =
          (presenceOf (viewFirst w.tree w.shared members path), members', w') ∧
        Kept w w' ∧ viewFirst w.tree w.shared members' = viewFirst w.tree w.shared members
  | [] => ⟨[], w, by rw [presenceInAny, viewFirst]; rfl, .refl w, rfl⟩
  | member :: members => by
      obtain ⟨member', w', hmember, hw, hview⟩ := presence_eq path w member
      obtain ⟨members', w'', hmembers, hw', hviews⟩ := presenceInAny_eq path w' members
      rw [hw.tree, hw.shared] at hmembers hviews
      rw [presenceInAny, hmember]
      rcases hfound : member.view w.tree w.shared path with e | _ | bs
      · refine ⟨member' :: members, w', by rw [viewFirst, hfound]; rfl, hw, ?_⟩
        funext p
        rw [viewFirst, viewFirst, hview]
      · dsimp only [presenceOf, Option.isSome]
        rw [hmembers, viewFirst, hfound]
        refine ⟨member' :: members', w'', rfl, hw.trans hw', ?_⟩
        funext p
        rw [viewFirst, viewFirst, hview, hviews]
      · refine ⟨member' :: members, w', by rw [viewFirst, hfound]; rfl, hw, ?_⟩
        funext p
        rw [viewFirst, viewFirst, hview]

end

end Sources

namespace Library

variable (l : Library) (path : String)

/-- The files that a library serves.  A failing lookup counts as if there were no file. -/
def served : Option Bytes :=
  match l.sources.view l.world.tree l.world.shared path with
  | .ok found => found
  | .error _ => none

/-- Whether the same files are served as before, and the tree is as before. -/
structure Lasts (l l' : Library) : Prop where
  tree : l'.world.tree = l.world.tree
  served : l'.served = l.served

theorem Lasts.refl : Lasts l l := ⟨rfl, rfl⟩

theorem Lasts.trans {l l' l'' : Library} (h : Lasts l l') (h' : Lasts l' l'') : Lasts l l'' :=
  ⟨h'.tree.trans h.tree, h'.served.trans h.served⟩

theorem Lasts.of_kept {sources : Sources} {w : World} (hw : Sources.Kept l.world w)
    (hview : sources.view l.world.tree l.world.shared =
      l.sources.view l.world.tree l.world.shared) : Lasts l ⟨sources, w⟩ := by
  refine ⟨hw.tree, funext fun p ↦ ?_⟩
  simp only [Library.served, hw.tree, hw.shared, hview]

theorem contents_eq : ∃ l', l.contents path =
    (l.sources.view l.world.tree l.world.shared path, l') ∧ Lasts l l' := by
  obtain ⟨sources, w, hcontents, hw, hview⟩ := Sources.contents_eq path l.world l.sources
  exact ⟨⟨sources, w⟩, by rw [contents, hcontents], .of_kept l hw hview⟩

theorem presence_eq : ∃ l', l.presence path =
    (presenceOf (l.sources.view l.world.tree l.world.shared path), l') ∧ Lasts l l' := by
  obtain ⟨sources, w, hpresence, hw, hview⟩ := Sources.presence_eq path l.world l.sources
  exact ⟨⟨sources, w⟩, by rw [presence, hpresence], .of_kept l hw hview⟩

theorem lasts_contents : l.Lasts (l.contents path).2 := by
  obtain ⟨l', hcontents, hlasts⟩ := l.contents_eq path
  rwa [hcontents]

theorem served_of_contents {path : String} {l l' : Library} {bs : Bytes}
    (h : l.contents path = (.ok (some bs), l')) : l.served path = some bs := by
  obtain ⟨l₁, hcontents, -⟩ := l.contents_eq path
  rw [hcontents] at h
  rw [served, (Prod.mk.inj h).1]

theorem answer_contents : ∃ l', answer ⟨.contents, path⟩ l = (.ofContents (l.served path), l') ∧
    Lasts l l' := by
  obtain ⟨l', hcontents, hlasts⟩ := l.contents_eq path
  refine ⟨l', ?_, hlasts⟩
  simp only [answer, Resolver.contents, hcontents, served]
  cases l.sources.view l.world.tree l.world.shared path <;> rfl

theorem answer_presence : ∃ l',
    answer ⟨.presence, path⟩ l = (.presence (l.served path).isSome, l') ∧ Lasts l l' := by
  obtain ⟨l', hpresence, hlasts⟩ := l.presence_eq path
  refine ⟨l', ?_, hlasts⟩
  simp only [answer, Resolver.presence, hpresence, served]
  cases l.sources.view l.world.tree l.world.shared path <;> rfl

/-- What is served decides the answers, and is not changed by them. -/
theorem lasts_answer (r : Request) : Lasts l (answer r l).2 := by
  obtain ⟨kind, path⟩ := r
  cases kind with
  | contents =>
      obtain ⟨l', hanswer, hlasts⟩ := l.answer_contents path
      rwa [hanswer]
  | presence =>
      obtain ⟨l', hanswer, hlasts⟩ := l.answer_presence path
      rwa [hanswer]

theorem answer_congr {l l' : Library} {r : Request} (h : l'.served r.path = l.served r.path) :
    (answer r l').1 = (answer r l).1 := by
  obtain ⟨kind, path⟩ := r
  cases kind with
  | contents =>
      obtain ⟨_, hanswer, -⟩ := l.answer_contents path
      obtain ⟨_, hanswer', -⟩ := l'.answer_contents path
      rw [hanswer, hanswer', h]
  | presence =>
      obtain ⟨_, hanswer, -⟩ := l.answer_presence path
      obtain ⟨_, hanswer', -⟩ := l'.answer_presence path
      rw [hanswer, hanswer', h]

end Library

end PipedCompiler.Parent
