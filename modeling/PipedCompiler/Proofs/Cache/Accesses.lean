import Mathlib.Data.List.Induction
import PipedCompiler.Proofs.Cache.Store

/-!
# What a directory of output gives back

A directory of output is used again and again: a store is opened on it, output is put and got, and
the next process opens the directory anew.  Any write to the directory may come to nothing.  What is
got under a key has been put there last since the directory was opened, or else it is what was last
written to the directory under that key.  Neither getting anything nor putting something under
another key has to do with it.
-/

namespace PipedCompiler.Cache.Store

open PipedCompiler.Text

/-! ## Accesses -/

/-- What can be done with a directory of output. -/
inductive Access where
  /-- Output is put under a key, and written to the directory or not. -/
  | put (key output : String) (written : Bool)
  | get (key : String)
  | reopen
  deriving DecidableEq

/-- Whether a store and the files can be as they are after some accesses to a directory.  What is
written belongs to a key that can be the name of a file, as every key can. -/
inductive History (directory : String) (start : Store × FileTree) :
    List Access → Store × FileTree → Prop
  | nil : History directory start [] start
  | written {accesses : List Access} {s : Store} {t : FileTree} {key output : String}
      (h : History directory start accesses (s, t)) (hkey : IsName key)
      (hwrite : (t.write? (entryPath directory key) (bytesOf output)).isSome) :
      History directory start (accesses ++ [.put key output true]) (s.put key output t)
  | lost {accesses : List Access} {s : Store} {t : FileTree} {key output : String}
      (h : History directory start accesses (s, t)) :
      History directory start (accesses ++ [.put key output false]) ((s.put key output t).1, t)
  | got {accesses : List Access} {s : Store} {t : FileTree} {key : String}
      (h : History directory start accesses (s, t)) :
      History directory start (accesses ++ [.get key]) ((s.get key t).2, t)
  | reopened {accesses : List Access} {s s' : Store} {t t' : FileTree}
      (h : History directory start accesses (s, t))
      (hopen : open? .disk directory t = some (s', t')) :
      History directory start (accesses ++ [.reopen]) (s', t')

namespace Access

/-- The output that is put under a key. -/
def output? (key : String) : Access → Option String
  | .put k output _ => if k = key then some output else none
  | _ => none

/-- The output that is written to the directory under a key. -/
def written? (key : String) : Access → Option String
  | .put k output true => if k = key then some output else none
  | _ => none

/-- Whether an access can change what is got under a key. -/
def concerns (key : String) : Access → Bool
  | .put k _ _ => k = key
  | .get _ => false
  | .reopen => true

end Access

/-- The output that has been put last under a key since the directory was opened. -/
def lastPut (key : String) (accesses : List Access) : Option String :=
  (accesses.reverse.takeWhile (· ≠ .reopen)).findSome? (Access.output? key)

/-- The output that has been written last to the directory under a key. -/
def lastWritten (key : String) (accesses : List Access) : Option String :=
  accesses.reverse.findSome? (Access.written? key)

section Last

variable {key : String} {accesses : List Access}

@[simp] theorem lastPut_put (k output : String) (written : Bool) :
    lastPut key (accesses ++ [.put k output written]) =
      if k = key then some output else lastPut key accesses := by
  rw [lastPut, List.reverse_concat, List.takeWhile_cons, if_pos (by simp), List.findSome?_cons,
    Access.output?]
  by_cases hk : k = key
  · rw [if_pos hk, if_pos hk]
  · rw [if_neg hk, if_neg hk]
    rfl

@[simp] theorem lastPut_get (k : String) :
    lastPut key (accesses ++ [.get k]) = lastPut key accesses := by
  rw [lastPut, List.reverse_concat, List.takeWhile_cons, if_pos (by simp), List.findSome?_cons]
  rfl

@[simp] theorem lastPut_reopen : lastPut key (accesses ++ [.reopen]) = none := by
  rw [lastPut, List.reverse_concat, List.takeWhile_cons, if_neg (by simp), List.findSome?_nil]

@[simp] theorem lastWritten_put (k output : String) (written : Bool) :
    lastWritten key (accesses ++ [.put k output written]) =
      if written = true ∧ k = key then some output else lastWritten key accesses := by
  rw [lastWritten, List.reverse_concat, List.findSome?_cons]
  cases written with
  | false => rfl
  | true =>
      rw [Access.written?]
      by_cases hk : k = key
      · rw [if_pos hk, if_pos ⟨rfl, hk⟩]
      · rw [if_neg hk, if_neg (fun h ↦ hk h.2)]
        rfl

@[simp] theorem lastWritten_get (k : String) :
    lastWritten key (accesses ++ [.get k]) = lastWritten key accesses := by
  rw [lastWritten, List.reverse_concat, List.findSome?_cons]
  rfl

@[simp] theorem lastWritten_reopen :
    lastWritten key (accesses ++ [.reopen]) = lastWritten key accesses := by
  rw [lastWritten, List.reverse_concat, List.findSome?_cons]
  rfl

/-- Only accesses that concern a key count for it. -/
theorem last_filter_concerns (key : String) (accesses : List Access) :
    lastPut key (accesses.filter (Access.concerns key)) = lastPut key accesses ∧
      lastWritten key (accesses.filter (Access.concerns key)) = lastWritten key accesses := by
  induction accesses using List.reverseRecOn with
  | nil => exact ⟨rfl, rfl⟩
  | append_singleton accesses a ih =>
      rw [List.filter_append]
      cases a with
      | put k output written =>
          by_cases hk : k = key
          · simp [Access.concerns, hk, ih]
          · simp [Access.concerns, hk, ih]
      | get k => simp [Access.concerns, ih]
      | reopen =>
          have hreopen : [Access.reopen].filter (Access.concerns key) = [.reopen] := rfl
          simp [hreopen, ih]

end Last

/-! ## What is got -/

theorem open?_disk_eq_some_iff {directory : String} {t t' : FileTree} {s : Store} :
    open? .disk directory t = some (s, t') ↔
      s = .disk directory .empty ∧ t.createDirectories? directory = some t' := by
  rw [open?, Option.map_eq_some_iff]
  constructor
  · rintro ⟨_, hmade, ⟨⟩⟩
    exact ⟨rfl, hmade⟩
  · rintro ⟨rfl, hmade⟩
    exact ⟨t', hmade, rfl⟩

/-- The table in front of a directory is asked first. -/
theorem get_disk (directory : String) (front : Table String) (key : String) (t : FileTree) :
    ((disk directory front).get key t).1 =
      (front.get? key).or (readText? t (entryPath directory key)) := by
  rw [get]
  cases front.get? key with
  | some output => rfl
  | none => cases readText? t (entryPath directory key) <;> rfl

/-- Whether a table in front of a directory, and the files, are as some accesses leave them. -/
structure Reflects (directory : String) (first : FileTree) (accesses : List Access)
    (front : Table String) (t : FileTree) : Prop where
  stands : t.Stands directory
  /-- Files hold what was last written. -/
  files {key : String} (hkey : IsName key) : readText? t (entryPath directory key) =
    (lastWritten key accesses).or (readText? first (entryPath directory key))
  /-- What has been put since the directory was opened is in front. -/
  front_put {key output : String} (h : lastPut key accesses = some output) :
    front.get? key = some output
  /-- All else that is in front has been read from the directory. -/
  front_read {key output : String} (hkey : IsName key) (h : front.get? key = some output)
    (hput : lastPut key accesses = none) :
    readText? t (entryPath directory key) = some output

namespace Reflects

variable {directory key output : String} {first t t' : FileTree} {accesses : List Access}
  {front : Table String}

theorem opened (h : t.Stands directory) : Reflects directory t [] .empty t where
  stands := h
  files _ := rfl
  front_put h := nomatch h
  front_read _ h := nomatch h

theorem lost (h : Reflects directory first accesses front t) :
    Reflects directory first (accesses ++ [.put key output false]) (front.insert key output) t where
  stands := h.stands
  files hother := by simpa using h.files hother
  front_put hlast := by
    rw [lastPut_put] at hlast
    rw [Table.get?_insert]
    split at hlast
    · next heq => rwa [if_pos heq]
    · next hne =>
      rw [if_neg hne]
      exact h.front_put hlast
  front_read hother hfront hlast := by
    rw [lastPut_put] at hlast
    rw [Table.get?_insert] at hfront
    split at hlast
    · cases hlast
    · next hne =>
      rw [if_neg hne] at hfront
      exact h.front_read hother hfront hlast

theorem written (h : Reflects directory first accesses front t) (hkey : IsName key)
    (hwrite : t.write? (entryPath directory key) (bytesOf output) = some t') :
    Reflects directory first (accesses ++ [.put key output true]) (front.insert key output) t' where
  stands := by
    obtain ⟨place, -, hroom, rfl⟩ := FileTree.exists_of_write? hwrite
    exact h.stands.put hroom _
  files hother := by
    rw [readText?_write? hkey hother hwrite, lastWritten_put, h.files hother]
    simp only [true_and]
    split <;> rfl
  front_put hlast := by
    rw [lastPut_put] at hlast
    exact h.lost.front_put ((lastPut_put _ _ _).trans hlast)
  front_read hother hfront hlast := by
    rw [lastPut_put] at hlast
    have hread := h.lost.front_read hother hfront ((lastPut_put _ _ _).trans hlast)
    split at hlast
    · cases hlast
    · next hne => rwa [readText?_write? hkey hother hwrite, if_neg hne]

/-- What is read from the directory is the same as long as nothing else is put under its key. -/
theorem read (h : Reflects directory first accesses front t) (hfront : front.get? key = none)
    (hread : readText? t (entryPath directory key) = some output) :
    Reflects directory first (accesses ++ [.get key]) (front.insert key output) t where
  stands := h.stands
  files hother := by simpa using h.files hother
  front_put hlast := by
    rw [lastPut_get] at hlast
    rw [Table.get?_insert]
    split
    · next heq =>
      rw [heq, h.front_put hlast] at hfront
      cases hfront
    · exact h.front_put hlast
  front_read hother hinserted hlast := by
    rw [lastPut_get] at hlast
    rw [Table.get?_insert] at hinserted
    split at hinserted
    · next heq => rwa [← heq, ← hinserted]
    · exact h.front_read hother hinserted hlast

theorem got (h : Reflects directory first accesses front t) :
    Reflects directory first (accesses ++ [.get key]) front t where
  stands := h.stands
  files hother := by simpa using h.files hother
  front_put hlast := h.front_put (by simpa using hlast)
  front_read hother hfront hlast := h.front_read hother hfront (by simpa using hlast)

theorem reopened (h : Reflects directory first accesses front t) :
    Reflects directory first (accesses ++ [.reopen]) .empty t where
  stands := h.stands
  files hother := by simpa using h.files hother
  front_put hlast := by simp at hlast
  front_read _ hfront := nomatch hfront

/-- What is got has been put or written last. -/
theorem get (h : Reflects directory first accesses front t) (hkey : IsName key) :
    ((disk directory front).get key t).1 = (lastPut key accesses).or
      ((lastWritten key accesses).or (readText? first (entryPath directory key))) := by
  rw [get_disk, ← h.files hkey]
  cases hput : lastPut key accesses with
  | some output => rw [h.front_put hput, Option.some_or]
  | none =>
      cases hfront : front.get? key with
      | none => rfl
      | some output => rw [Option.some_or, Option.none_or, h.front_read hkey hfront hput]

end Reflects

/-- Every access leaves the table and the files as they should be. -/
theorem History.reflects {directory : String} {t first : FileTree} {start : Store}
    (hopen : open? .disk directory t = some (start, first)) {accesses : List Access}
    {reached : Store × FileTree} (h : History directory (start, first) accesses reached) :
    ∃ front, reached.1 = .disk directory front ∧
      Reflects directory first accesses front reached.2 := by
  induction h with
  | nil =>
      obtain ⟨rfl, hmade⟩ := open?_disk_eq_some_iff.mp hopen
      exact ⟨.empty, rfl, .opened (FileTree.stands_of_createDirectories? hmade)⟩
  | @written accesses s t key output h hkey hwrite ih =>
      obtain ⟨front, rfl, hreflects⟩ := ih
      obtain ⟨t', hwrite⟩ := Option.isSome_iff_exists.mp hwrite
      refine ⟨front.insert key output, rfl, ?_⟩
      show Reflects _ _ _ _ ((t.write? _ _).getD t)
      rw [hwrite]
      exact hreflects.written hkey hwrite
  | @lost accesses s t key output h ih =>
      obtain ⟨front, rfl, hreflects⟩ := ih
      exact ⟨front.insert key output, rfl, hreflects.lost⟩
  | @got accesses s t key h ih =>
      obtain ⟨front, rfl, hreflects⟩ := ih
      dsimp only
      rw [Store.get]
      cases hfront : front.get? key with
      | some output => exact ⟨front, rfl, hreflects.got⟩
      | none =>
          cases hread : readText? t (entryPath directory key) with
          | none => exact ⟨front, rfl, hreflects.got⟩
          | some output => exact ⟨front.insert key output, rfl, hreflects.read hfront hread⟩
  | reopened h hopen ih =>
      obtain ⟨front, rfl, hreflects⟩ := ih
      obtain ⟨rfl, hmade⟩ := open?_disk_eq_some_iff.mp hopen
      obtain rfl := Option.some.inj (hreflects.stands.symm.trans hmade)
      exact ⟨.empty, rfl, hreflects.reopened⟩

/-- After any accesses to a directory, what is got under a key has been put there last since the
directory was opened, or else was written there last, or else has been there from the first.  It is
the same after all accesses in which the same is put under the key between the same openings,
whatever else is put or got.  And the directory can always be opened again. -/
theorem get_after_accesses {directory key : String} {t first t' : FileTree} {start s : Store}
    {accesses : List Access} (hopen : open? .disk directory t = some (start, first))
    (h : History directory (start, first) accesses (s, t')) (hkey : IsName key) :
    (s.get key t').1 = (lastPut key accesses).or
        ((lastWritten key accesses).or (readText? first (entryPath directory key))) ∧
      (∀ (accesses' : List Access) (s' : Store) (t'' : FileTree),
        History directory (start, first) accesses' (s', t'') →
          accesses'.filter (Access.concerns key) = accesses.filter (Access.concerns key) →
            (s'.get key t'').1 = (s.get key t').1) ∧
      (open? .disk directory t').isSome := by
  obtain ⟨front, rfl, hreflects⟩ := h.reflects hopen
  refine ⟨hreflects.get hkey, fun accesses' s' t'' h' hsame ↦ ?_, ?_⟩
  · obtain ⟨front', rfl, hreflects'⟩ := h'.reflects hopen
    obtain ⟨hput, hwritten⟩ := last_filter_concerns key accesses
    obtain ⟨hput', hwritten'⟩ := last_filter_concerns key accesses'
    rw [hsame] at hput' hwritten'
    rw [hreflects.get hkey, hreflects'.get hkey, ← hput, ← hput', ← hwritten, ← hwritten']
  · have hagain : open? .disk directory t' = some (.disk directory .empty, t') :=
      open?_disk_eq_some_iff.mpr ⟨rfl, hreflects.stands⟩
    rw [hagain]
    rfl

/-- A write that comes to nothing is forgotten with the process. -/
theorem get_after_accesses_lost : ∃ (first t : FileTree) (start s : Store),
    open? .disk "/cache" .empty = some (start, first) ∧
      History "/cache" (start, first)
        [.put "k" "a" true, .put "k" "b" false, .put "j" "c" true, .reopen] (s, t) ∧
      IsName "k" ∧ (s.get "k" t).1 = some "a" := by
  let first := FileTree.empty.put "/cache" .directory
  let last := (first.put "/cache/k.js" (.file (bytesOf "a"))).put "/cache/j.js"
    (.file (bytesOf "c"))
  have hopen : open? .disk "/cache" .empty = some (.disk "/cache" .empty, first) := rfl
  have hk : IsName "k" := show '/' ∉ "k".toList by decide
  have hj : IsName "j" := show '/' ∉ "j".toList by decide
  have hput : History "/cache" (.disk "/cache" .empty, first)
      [.put "k" "a" true, .put "k" "b" false, .put "j" "c" true] (.disk "/cache"
        (((Table.empty.insert "k" "a").insert "k" "b").insert "j" "c"), last) :=
    ((History.nil.written hk rfl).lost).written hj rfl
  have hhistory : History "/cache" (.disk "/cache" .empty, first)
      [.put "k" "a" true, .put "k" "b" false, .put "j" "c" true, .reopen]
      (.disk "/cache" .empty, last) := hput.reopened rfl
  exact ⟨first, last, _, _, hopen, hhistory, hk, (get_after_accesses hopen hhistory hk).1⟩

end PipedCompiler.Cache.Store
