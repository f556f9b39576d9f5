import PipedCompiler.Proofs.Cache.Key

/-!
# Keys keep compiles apart

A key is as long as a digest makes it and consists of letters, digits, hyphens and underscores, so
every key is the name of a file of its own.  As long as SHA-256 does not collide on what is
digested, compiles that differ in their root, in what the root holds or in an option have different
keys: the digested text has every string in quotes, and nothing in a string can be taken for its
end.
-/

namespace PipedCompiler.Cache

open PipedCompiler.Text

/-! ## The form of keys -/

theorem Sha256.length_digest (bs : Bytes) : (digest bs).length = 32 := by
  simp [digest, Words.toList, wordBytes]

/-- Names of digests can be told apart as well as the digests. -/
theorem digestBytes_inj {bs bs' : Bytes} :
    digestBytes bs = digestBytes bs' ↔ Sha256.digest bs = Sha256.digest bs' := by
  rw [digestBytes, digestBytes, String.ofList_inj, Base64Url.encode_injective.eq_iff]

/-- Whether a name has the form of a key. -/
structure HasKeyForm (name : String) : Prop where
  length : name.length = 43
  letter : ∀ c ∈ name.toList, c.isAlphanum = true ∨ c = '-' ∨ c = '_'

theorem hasKeyForm_key (root : String) (source : Bytes) (o : CompileOptions) :
    HasKeyForm (key root source o) where
  length := by
    rw [key_eq, digestBytes, String.length_ofList, Base64Url.length_encode, Sha256.length_digest]
  letter c hc := by
    have hletter : ∀ c ∈ Base64Url.alphabet, c.isAlphanum = true ∨ c = '-' ∨ c = '_' := by decide
    rw [key_eq, digestBytes, String.toList_ofList] at hc
    exact hletter c (Base64Url.mem_alphabet_of_mem_encode hc)

/-! ## Compiles -/

/-- Keys keep compiles apart: equal keys belong to equal roots with equal contents and options, all
keys have one form, and the entries of different keys are different files of the directory. -/
theorem key_separates {root root' : String} {source source' : Bytes} {o o' : CompileOptions}
    (hsources : Sha256.digest source = Sha256.digest source' → source = source')
    (hmaterials : Sha256.digest (material root source o) =
      Sha256.digest (material root' source' o') →
        material root source o = material root' source' o') :
    (key root source o = key root' source' o' → root = root' ∧ source = source' ∧ o = o') ∧
      HasKeyForm (key root source o) ∧
      (∀ (t : FileTree) (directory place : String),
        t.placeOf? (Store.entryPath directory (key root source o)) = some place ↔
          FileTree.isAcceptable (Store.entryPath directory (key root source o)) = true ∧
            ∃ p, t.LeadsInto directory p ∧
              place = FileTree.child p (key root source o ++ ".js")) ∧
      (key root source o ≠ key root' source' o' →
        ∀ directory : String, Store.entryPath directory (key root source o) ≠
            Store.entryPath directory (key root' source' o') ∧
          ∀ (t : FileTree) (place : String),
            t.placeOf? (Store.entryPath directory (key root source o)) = some place →
              t.placeOf? (Store.entryPath directory (key root' source' o')) ≠ some place) := by
  have hname := isName_key root source o
  have hname' := isName_key root' source' o'
  refine ⟨fun hkey ↦ ?_, hasKeyForm_key root source o,
    fun t directory place ↦ Store.placeOf?_entryPath_eq_some_iff hname,
    fun hne directory ↦ ⟨fun hpath ↦ ?_, fun t place hplace hplace' ↦ ?_⟩⟩
  · exact eq_of_key_eq (fun hdigest ↦ hsources (digestBytes_inj.mp hdigest))
      (fun hdigest ↦ hmaterials (digestBytes_inj.mp hdigest)) hkey
  · exact hne (Store.entryPath_inj hname hname' hpath)
  · exact hne (Store.eq_of_placeOf?_entryPath hname hname' hplace hplace')

/-- A root whose name goes on as if it ended, and one that is named like its beginning. -/
theorem key_separates_quoted :
    Sha256.digest (bytesOf "x") ≠ Sha256.digest (bytesOf "y") ∧
      Sha256.digest (material "a\",\"source\":\"" (bytesOf "x") {}) ≠
        Sha256.digest (material "a" (bytesOf "y") {}) ∧
      key "a\",\"source\":\"" (bytesOf "x") {} ≠ key "a" (bytesOf "y") {} := by
  have hsource : Sha256.digest (bytesOf "x") ≠ Sha256.digest (bytesOf "y") := by decide +kernel
  have hmaterial : Sha256.digest (material "a\",\"source\":\"" (bytesOf "x") {}) ≠
      Sha256.digest (material "a" (bytesOf "y") {}) := by decide +kernel
  refine ⟨hsource, hmaterial, fun hkey ↦ ?_⟩
  have hroot := ((key_separates (fun h ↦ absurd h hsource) fun h ↦ absurd h hmaterial).1 hkey).1
  exact absurd hroot (by decide)

end PipedCompiler.Cache
