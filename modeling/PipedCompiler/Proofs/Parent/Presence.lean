import PipedCompiler.Proofs.Parent.Library
import PipedCompiler.Proofs.Parent.Serving

/-!
# Presence and contents

Whether there is a file is asked in another way than what it holds: a table looks for the key, a chain
has a loop of its own, and only a place whose answers are remembered turns the one into the other.
All the same the two agree, in whatever way places are put together and whatever they remember, also
where a file cannot be read.
-/

namespace PipedCompiler.Parent

open PipedCompiler.Text PipedCompiler.Bridge

namespace Sources

variable {t : FileTree} {shared : Table Bytes} {path : String}

/-- A chain comes to the first answer of its members that is not that there is no file. -/
theorem viewFirst_eq_iff {x : Except IoError (Option Bytes)} (hx : x ≠ .ok none)
    (members : List Sources) :
    viewFirst t shared members path = x ↔
      ∃ before m after, members = before ++ m :: after ∧
        (∀ m' ∈ before, m'.view t shared path = .ok none) ∧ m.view t shared path = x := by
  induction members with
  | nil =>
      refine ⟨fun h ↦ absurd h.symm hx, ?_⟩
      rintro ⟨before, m, after, hmembers, -⟩
      simp at hmembers
  | cons member members ih =>
      rw [viewFirst]
      by_cases hmember : member.view t shared path = .ok none
      · rw [hmember]
        dsimp only
        rw [ih]
        constructor
        · rintro ⟨before, m, after, rfl, hbefore, hm⟩
          refine ⟨member :: before, m, after, rfl, ?_, hm⟩
          exact List.forall_mem_cons.mpr ⟨hmember, hbefore⟩
        · rintro ⟨_ | ⟨first, before⟩, m, after, hmembers, hbefore, hm⟩
          · obtain ⟨rfl, -⟩ := List.cons.inj hmembers
            exact absurd (hm.symm.trans hmember) hx
          · obtain ⟨-, rfl⟩ := List.cons.inj hmembers
            exact ⟨before, m, after, rfl, (List.forall_mem_cons.mp hbefore).2, hm⟩
      · have hfirst : (∃ before m after, member :: members = before ++ m :: after ∧
              (∀ m' ∈ before, m'.view t shared path = .ok none) ∧ m.view t shared path = x) ↔
            member.view t shared path = x := by
          constructor
          · rintro ⟨_ | ⟨first, before⟩, m, after, hmembers, hbefore, hm⟩
            · obtain ⟨rfl, -⟩ := List.cons.inj hmembers
              exact hm
            · obtain ⟨rfl, -⟩ := List.cons.inj hmembers
              exact absurd (hbefore _ List.mem_cons_self) hmember
          · exact fun h ↦ ⟨[], member, members, rfl, fun _ h ↦ absurd h List.not_mem_nil, h⟩
        rw [hfirst]
        rcases hview : member.view t shared path with e | _ | bs
        · rfl
        · exact absurd hview hmember
        · rfl

end Sources

namespace Library

/-- What looking a path up comes to. -/
def finds (l : Library) (path : String) : Except IoError (Option Bytes) :=
  l.sources.view l.world.tree l.world.shared path

theorem finds_contents (l : Library) (path : String) :
    (l.contents path).1 = l.finds path ∧ (l.contents path).2.finds = l.finds := by
  obtain ⟨sources, w, hcontents, hw, hview⟩ := Sources.contents_eq path l.world l.sources
  rw [contents, hcontents]
  refine ⟨rfl, funext fun p ↦ ?_⟩
  simp only [finds, hw.tree, hw.shared, hview]

theorem finds_presence (l : Library) (path : String) :
    (l.presence path).1 = presenceOf (l.finds path) ∧ (l.presence path).2.finds = l.finds := by
  obtain ⟨sources, w, hpresence, hw, hview⟩ := Sources.presence_eq path l.world l.sources
  rw [presence, hpresence]
  refine ⟨rfl, funext fun p ↦ ?_⟩
  simp only [finds, hw.tree, hw.shared, hview]

/-- Answering a request changes nothing about what is found. -/
theorem finds_answer (r : Request) (l : Library) : (answer r l).2.finds = l.finds := by
  obtain ⟨kind, path⟩ := r
  cases kind with
  | contents =>
      rw [← (l.finds_contents path).2]
      simp only [answer, Resolver.contents]
      rcases l.contents path with ⟨_ | found, l'⟩ <;> rfl
  | presence =>
      rw [← (l.finds_presence path).2]
      simp only [answer, Resolver.presence]
      rcases l.presence path with ⟨_ | found, l'⟩ <;> rfl

theorem finds_afterAll (rs : List Request) (l : Library) : (afterAll rs l).finds = l.finds := by
  induction rs generalizing l with
  | nil => rfl
  | cons r rs ih => exact (ih (answer r l).2).trans (finds_answer r l)

theorem presenceOf_eq_ok_iff {found : Except IoError (Option Bytes)} {b : Bool} :
    presenceOf found = .ok b ↔ ∃ contents, found = .ok contents ∧ contents.isSome = b := by
  cases found with
  | error e => simp [presenceOf]
  | ok contents => simp [presenceOf]

theorem presenceOf_eq_error_iff {found : Except IoError (Option Bytes)} {e : IoError} :
    presenceOf found = .error e ↔ found = .error e := by
  cases found with
  | error e' => simp [presenceOf]
  | ok contents => simp [presenceOf]

/-- A file is said to be absent just if it is said not to be found. -/
theorem answer_presence_eq_iff (l l' : Library) (path : String) (h : l'.finds = l.finds) :
    (answer ⟨.presence, path⟩ l).1 = .presence false ↔
      (answer ⟨.contents, path⟩ l').1 = .notFound := by
  obtain ⟨_, hpresence, -⟩ := l.answer_presence path
  obtain ⟨_, hcontents, -⟩ := l'.answer_contents path
  have hserved : l'.served path = l.served path := by
    have hview := congrFun h path
    rw [finds, finds] at hview
    rw [served, served, hview]
  rw [hpresence, hcontents, hserved]
  cases l.served path with
  | none => simp [Response.ofContents]
  | some bs => simp [Response.ofContents]

/-- However places to look files up are put together and whatever they have been asked, there is said
to be a file just if there are said to be contents, and the one fails just if the other does.  What a
chain has is what its first member has that has the file, unless a member before it fails. -/
theorem presence_agrees (l : Library) (rs rs' : List Request) (path : String) :
    let present := ((afterAll rs l).presence path).1
    let found := ((afterAll rs' l).contents path).1
    (∀ b, present = .ok b ↔ ∃ contents, found = .ok contents ∧ contents.isSome = b) ∧
    (∀ e, present = .error e ↔ found = .error e) ∧
    ((answer ⟨.presence, path⟩ (afterAll rs l)).1 = .presence false ↔
      (answer ⟨.contents, path⟩ (afterAll rs' l)).1 = .notFound) ∧
    ∀ members, l.sources = .chain members → ∀ x, x ≠ .ok none →
      (found = x ↔ ∃ before m after, members = before ++ m :: after ∧
        (∀ m' ∈ before, (m'.contents path l.world).1 = .ok none) ∧
        (m.contents path l.world).1 = x) := by
  intro present found
  have hpresent : present = presenceOf (l.finds path) := by
    rw [← finds_afterAll rs l]
    exact ((afterAll rs l).finds_presence path).1
  have hfound : found = l.finds path := by
    rw [← finds_afterAll rs' l]
    exact ((afterAll rs' l).finds_contents path).1
  rw [hpresent, hfound]
  refine ⟨fun b ↦ presenceOf_eq_ok_iff, fun e ↦ presenceOf_eq_error_iff, ?_, ?_⟩
  · exact answer_presence_eq_iff _ _ path ((finds_afterAll rs' l).trans (finds_afterAll rs l).symm)
  · intro members hmembers x hx
    have hview (m : Sources) :
        (m.contents path l.world).1 = m.view l.world.tree l.world.shared path := by
      obtain ⟨_, _, hcontents, -⟩ := Sources.contents_eq path l.world m
      rw [hcontents]
    simp only [hview]
    rw [finds, hmembers, Sources.view]
    exact Sources.viewFirst_eq_iff hx members

/-- A file that cannot be read, before a table that has the file too. -/
example :
    let l : Library :=
      ⟨.memoized .empty (.chain [.directories ["src"], .memory (.ofList [("a.ts", [1])])]),
        ⟨.ofList [("/src", .directory), ("/src/a.ts", .unreadable "denied")], ""⟩, .empty, 0⟩
    (l.contents "a.ts").1 = .error ⟨.other, "denied"⟩ ∧
      (l.presence "a.ts").1 = .error ⟨.other, "denied"⟩ :=
  ⟨rfl, rfl⟩

end Library

end PipedCompiler.Parent
