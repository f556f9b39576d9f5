import PipedCompiler.Cache.Store
import PipedCompiler.Proofs.FileTree
import PipedCompiler.Proofs.Text.Utf8

/-!
# What a store keeps

What is got from a store under a key is what has been put there under that key.  In a directory this
rests on different keys having different files, so it is said of keys that can be names of files.
-/

namespace PipedCompiler.Cache

open PipedCompiler.Text

namespace Store

/-- Whether something is kept under a key: in memory, or in a file of the tree. -/
def Keeps (s : Store) (t : FileTree) (key output : String) : Prop :=
  match s with
  | .nothing => False
  | .memory entries => entries.get? key = some output
  | .disk directory front =>
    front.get? key = some output ∨ readText? t (entryPath directory key) = some output

variable {s : Store} {t : FileTree} {key other output text : String}

/-- What is got has been kept. -/
theorem keeps_of_get (h : (s.get key t).1 = some output) : s.Keeps t key output := by
  cases s with
  | nothing => cases h
  | memory entries => exact h
  | disk directory front =>
      rw [get] at h
      cases hfront : front.get? key with
      | some found =>
          rw [hfront] at h
          exact .inl (hfront.trans h)
      | none =>
          rw [hfront] at h
          cases hread : readText? t (entryPath directory key) with
          | some found =>
              rw [hread] at h
              exact .inr (hread.trans h)
          | none =>
              rw [hread] at h
              cases h

/-- Getting something keeps nothing new. -/
theorem Keeps.of_get (h : (s.get key t).2.Keeps t other output) : s.Keeps t other output := by
  cases s with
  | nothing => exact h
  | memory entries => exact h
  | disk directory front =>
      rw [get] at h
      cases hfront : front.get? key with
      | some found =>
          rw [hfront] at h
          exact h
      | none =>
          rw [hfront] at h
          cases hread : readText? t (entryPath directory key) with
          | none =>
              rw [hread] at h
              exact h
          | some found =>
              rw [hread] at h
              rcases h with h | h
              · rw [Table.get?_insert] at h
                split at h
                · next hkey => exact .inr (hkey ▸ hread.trans h)
                · exact .inl h
              · exact .inr h

/-- Whether a key can be the name of a file. -/
def IsName (key : String) : Prop :=
  '/' ∉ key.toList

theorem IsName.goesDown (h : IsName key) : FileTree.GoesDown (key ++ ".js") := by
  have hlength : 3 ≤ (key ++ ".js").toList.length := by simp
  refine ⟨by simpa using show '/' ∉ key.toList from h, ?_, ?_, ?_⟩
  · intro heq
    rw [heq] at hlength
    exact absurd hlength (by decide)
  · intro heq
    rw [heq] at hlength
    exact absurd hlength (by decide)
  · intro heq
    rw [heq] at hlength
    exact absurd hlength (by decide)

/-- Different keys have different paths. -/
theorem entryPath_inj {directory : String} (hkey : IsName key) (hother : IsName other)
    (h : entryPath directory key = entryPath directory other) : key = other := by
  have hname := FileTree.join_inj hkey.goesDown hother.goesDown h
  simpa using hname

/-- The entry of a key stands in the directory under its own name. -/
theorem placeOf?_entryPath_eq_some_iff (hkey : IsName key) {directory place : String} :
    t.placeOf? (entryPath directory key) = some place ↔
      FileTree.isAcceptable (entryPath directory key) = true ∧
        ∃ p, t.LeadsInto directory p ∧ place = FileTree.child p (key ++ ".js") :=
  FileTree.placeOf?_join_eq_some_iff hkey.goesDown

/-- The entries of different keys are different files. -/
theorem eq_of_placeOf?_entryPath {directory place : String} (hkey : IsName key)
    (hother : IsName other) (h : t.placeOf? (entryPath directory key) = some place)
    (h' : t.placeOf? (entryPath directory other) = some place) : key = other := by
  have hname := FileTree.eq_of_placeOf?_join hkey.goesDown hother.goesDown h h'
  simpa using hname

/-- What is read under a key after something has been written under one. -/
theorem readText?_write? {t' : FileTree} {directory : String} (hkey : IsName key)
    (hother : IsName other)
    (hwrite : t.write? (entryPath directory key) (bytesOf output) = some t') :
    readText? t' (entryPath directory other) =
      if key = other then some output else readText? t (entryPath directory other) := by
  obtain ⟨place, hplace, hroom, rfl⟩ := FileTree.exists_of_write? hwrite
  rw [readText?, FileTree.read?_put hroom]
  by_cases hsame : key = other
  · subst hsame
    rw [if_pos hplace, if_pos rfl]
    simp [bytesOf, Except.toOption]
  · rw [if_neg hsame, if_neg]
    · rfl
    · exact fun hplace' ↦ hsame (eq_of_placeOf?_entryPath hkey hother hplace hplace')

/-- Putting something under a key keeps nothing else that is new. -/
theorem Keeps.of_put (hkey : IsName key) (hother : IsName other)
    (h : (s.put key output t).1.Keeps (s.put key output t).2 other text) :
    key = other ∧ text = output ∨ s.Keeps t other text := by
  cases s with
  | nothing => exact .inr h
  | memory entries =>
      have hget : (entries.insert key output).get? other = some text := h
      rw [Table.get?_insert] at hget
      split at hget
      · next heq => exact .inl ⟨heq, (Option.some.inj hget).symm⟩
      · exact .inr hget
  | disk directory front =>
      rw [put] at h
      rcases h with h | h
      · rw [Table.get?_insert] at h
        split at h
        · next heq => exact .inl ⟨heq, (Option.some.inj h).symm⟩
        · exact .inr (.inl h)
      · rcases hwrite : t.write? (entryPath directory key) (bytesOf output) with _ | t'
        · rw [hwrite] at h
          exact .inr (.inr h)
        · rw [hwrite] at h
          rw [Option.getD_some, readText?_write? hkey hother hwrite] at h
          split at h
          · next heq => exact .inl ⟨heq, (Option.some.inj h).symm⟩
          · exact .inr (.inr h)

/-- What is kept where there are no files is kept in memory. -/
theorem Keeps.of_no_files (hfiles : ∀ path, t.read? path = none) (h : s.Keeps t key output)
    (t' : FileTree) : s.Keeps t' key output := by
  cases s with
  | nothing => exact h
  | memory entries => exact h
  | disk directory front =>
      refine h.elim .inl fun hread ↦ ?_
      rw [readText?, hfiles] at hread
      cases hread

/-- The store of a process that starts anew: memory is lost, but not what is in a directory. -/
def reopened : Store → Store
  | .nothing => .nothing
  | .memory _ => .memory .empty
  | .disk directory _ => .disk directory .empty

theorem Keeps.of_reopened (h : s.reopened.Keeps t key output) : s.Keeps t key output := by
  cases s with
  | nothing => exact h
  | memory entries => cases h
  | disk directory front => exact h.elim (fun hfront ↦ by cases hfront) .inr

end Store

end PipedCompiler.Cache
