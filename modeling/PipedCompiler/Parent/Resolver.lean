import PipedCompiler.Bridge.Error
import PipedCompiler.FileTree

/-!
# Where sources come from

The parent looks sources up in tables, in directories, in several places one after the other, or in
one place whose answers it remembers.
-/

namespace PipedCompiler.Parent

open PipedCompiler.Text PipedCompiler.Bridge

/-- A place to look files up; looking may change it. -/
class Resolver (ρ : Type) where
  contents : String → ρ → Except IoError (Option Bytes) × ρ
  presence : String → ρ → Except IoError Bool × ρ

/-- A table always gives the same answers. -/
instance : Resolver (Table Bytes) where
  contents path files := (.ok (files.get? path), files)
  presence path files := (.ok (files.contains path), files)

/-- Whether there are contents, when asking for them has come to this. -/
def presenceOf : Except IoError (Option Bytes) → Except IoError Bool
  | .ok found => .ok found.isSome
  | .error e => .error e

/-- Asks about a path that may be remembered, and remembers the answer unless it is a failure. -/
def remember {σ : Type} (memo : Table (Option Bytes)) (path : String) (s : σ)
    (ask : Unit → Except IoError (Option Bytes) × σ) :
    Except IoError (Option Bytes) × Table (Option Bytes) × σ :=
  match memo.get? path with
  | some known => (.ok known, memo, s)
  | none =>
    match ask () with
    | (.ok found, s) => (.ok found, memo.insert path found, s)
    | (.error e, s) => (.error e, memo, s)

/-- A place whose answers are remembered. -/
structure Memoized (ρ : Type) where
  memo : Table (Option Bytes)
  inner : ρ

namespace Memoized

variable {ρ : Type}

/-- A place of which nothing is remembered yet. -/
def start (inner : ρ) : Memoized ρ :=
  ⟨.empty, inner⟩

/-- Forgets all that is remembered. -/
def clear (m : Memoized ρ) : Memoized ρ :=
  { m with memo := .empty }

variable [Resolver ρ]

/-- What a file holds. -/
def contents (path : String) (m : Memoized ρ) : Except IoError (Option Bytes) × Memoized ρ :=
  let (found, memo, inner) := remember m.memo path m.inner fun _ => Resolver.contents path m.inner
  (found, ⟨memo, inner⟩)

/-- Whether there is a file. -/
def presence (path : String) (m : Memoized ρ) : Except IoError Bool × Memoized ρ :=
  let (found, m) := m.contents path
  (presenceOf found, m)

instance : Resolver (Memoized ρ) where
  contents := contents
  presence := presence

end Memoized

/-- What lookups can depend on and leave traces in. -/
structure World where
  tree : FileTree
  /-- A table that can be changed between lookups. -/
  shared : Table Bytes
  /-- How many lookups there have been in the shared table. -/
  lookups : Nat

/-- A place to look files up, made of simpler ones. -/
inductive Sources where
  | memory (files : Table Bytes)
  /-- Directories, in which relative paths are looked for one after the other. -/
  | directories (roots : List String)
  /-- Places that are tried one after the other. -/
  | chain (members : List Sources)
  /-- A place whose answers are remembered. -/
  | memoized (memo : Table (Option Bytes)) (inner : Sources)
  /-- A place that fails. -/
  | failing (e : IoError)
  /-- The table that can be changed. -/
  | shared

instance : Inhabited Sources := ⟨.shared⟩

namespace Sources

/-- The paths that may lead to a file. -/
def candidates (roots : List String) (path : String) : List String :=
  if FileTree.isAbsolute path then [path] else roots.map (FileTree.join · path)

/-- What the first of the paths that leads to a file leads to.  A file that cannot be read ends the
search. -/
def readFirst (t : FileTree) : List String → Except IoError (Option Bytes)
  | [] => .ok none
  | path :: paths =>
    match t.find? path with
    | some (.file bs) => .ok (some bs)
    | some (.unreadable cause) => .error ⟨.other, cause⟩
    | _ => readFirst t paths

/-- What the first of the directories that has the file has. -/
def inDirectories (t : FileTree) (roots : List String) (path : String) :
    Except IoError (Option Bytes) :=
  readFirst t (candidates roots path)

mutual

/-- What a file holds. -/
def contents : Sources → String → World → Except IoError (Option Bytes) × Sources × World
  | .memory files, path, w => (.ok (files.get? path), .memory files, w)
  | .directories roots, path, w => (inDirectories w.tree roots path, .directories roots, w)
  | .chain members, path, w =>
    let (found, members, w) := contentsOfFirst members path w
    (found, .chain members, w)
  | .memoized memo inner, path, w =>
    let (found, memo, inner, w) := remember memo path (inner, w) fun _ => inner.contents path w
    (found, .memoized memo inner, w)
  | .failing e, _, w => (.error e, .failing e, w)
  | .shared, path, w => (.ok (w.shared.get? path), .shared, { w with lookups := w.lookups + 1 })

/-- What a file holds in the first place that has it.  A failing place ends the search. -/
def contentsOfFirst :
    List Sources → String → World → Except IoError (Option Bytes) × List Sources × World
  | [], _, w => (.ok none, [], w)
  | member :: members, path, w =>
    match member.contents path w with
    | (.error e, member, w) => (.error e, member :: members, w)
    | (.ok (some bs), member, w) => (.ok (some bs), member :: members, w)
    | (.ok none, member, w) =>
      let (found, members, w) := contentsOfFirst members path w
      (found, member :: members, w)

end

mutual

/-- Whether there is a file. -/
def presence : Sources → String → World → Except IoError Bool × Sources × World
  | .memory files, path, w => (.ok (files.contains path), .memory files, w)
  | .directories roots, path, w =>
    (presenceOf (inDirectories w.tree roots path), .directories roots, w)
  | .chain members, path, w =>
    let (found, members, w) := presenceInAny members path w
    (found, .chain members, w)
  | .memoized memo inner, path, w =>
    let (found, s, w) := contents (.memoized memo inner) path w
    (presenceOf found, s, w)
  | .failing e, _, w => (.error e, .failing e, w)
  | .shared, path, w => (.ok (w.shared.contains path), .shared, { w with lookups := w.lookups + 1 })

/-- Whether there is a file in some place.  A failing place ends the search. -/
def presenceInAny : List Sources → String → World → Except IoError Bool × List Sources × World
  | [], _, w => (.ok false, [], w)
  | member :: members, path, w =>
    match member.presence path w with
    | (.error e, member, w) => (.error e, member :: members, w)
    | (.ok true, member, w) => (.ok true, member :: members, w)
    | (.ok false, member, w) =>
      let (found, members, w) := presenceInAny members path w
      (found, member :: members, w)

end

mutual

/-- Forgets all that is remembered. -/
def clear : Sources → Sources
  | .memory files => .memory files
  | .directories roots => .directories roots
  | .chain members => .chain (clearAll members)
  | .memoized _ inner => .memoized .empty inner.clear
  | .failing e => .failing e
  | .shared => .shared

/-- Forgets all that some places remember. -/
def clearAll : List Sources → List Sources
  | [] => []
  | member :: members => member.clear :: clearAll members

end

end Sources

/-- Sources together with what they depend on. -/
structure Library where
  sources : Sources
  world : World

namespace Library

/-- What a file holds. -/
def contents (path : String) (l : Library) : Except IoError (Option Bytes) × Library :=
  let (found, sources, world) := l.sources.contents path l.world
  (found, ⟨sources, world⟩)

/-- Whether there is a file. -/
def presence (path : String) (l : Library) : Except IoError Bool × Library :=
  let (found, sources, world) := l.sources.presence path l.world
  (found, ⟨sources, world⟩)

instance : Resolver Library where
  contents := contents
  presence := presence

end Library

end PipedCompiler.Parent
