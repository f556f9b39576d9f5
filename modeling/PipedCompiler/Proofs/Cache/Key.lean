import PipedCompiler.Cache.Digest
import PipedCompiler.Proofs.Cache.Base64Url
import PipedCompiler.Proofs.Cache.Store
import PipedCompiler.Proofs.Text.JsonValue
import PipedCompiler.Proofs.Text.Utf8

/-!
# What a key tells

A key can be the name of a file, and it is the digest of a text from which the root, the digest of
what the root holds and the options can be got back.  So, where digests do not collide, equal keys
belong to equal roots with equal contents.
-/

namespace PipedCompiler.Cache

open PipedCompiler.Text

/-! ## Names -/

/-- A key can be the name of a file. -/
theorem isName_key (root : String) (source : Bytes) (o : CompileOptions) :
    Store.IsName (key root source o) := by
  intro hslash
  rw [key, digestJson, digestBytes, String.toList_ofList] at hslash
  exact absurd (Base64Url.mem_alphabet_of_mem_encode hslash) (by decide)

/-- Whether something is the key of a root with some contents. -/
def IsKey (name : String) : Prop :=
  ∃ root source o, name = key root source o

theorem IsKey.isName {name : String} (h : IsKey name) : Store.IsName name := by
  obtain ⟨root, source, o, rfl⟩ := h
  exact isName_key root source o

/-! ## Contents -/

/-- The bytes of which a key is the digest. -/
def material (root : String) (source : Bytes) (o : CompileOptions) : Bytes :=
  Utf8.encode (keyMaterial root source o).chars

theorem key_eq (root : String) (source : Bytes) (o : CompileOptions) :
    key root source o = digestBytes (material root source o) :=
  rfl

theorem boolText_append_inj {b b' : Bool} {rest rest' : List Char}
    (h : (if b then "true" else "false").toList ++ rest =
      (if b' then "true" else "false").toList ++ rest') : b = b' ∧ rest = rest' := by
  cases b <;> cases b' <;> simp_all

theorem eq_of_names {o o' : CompileOptions} (htarget : o.target.name = o'.target.name)
    (hstages : o.stages.name = o'.stages.name)
    (hlayout : o.libraryLayout.name = o'.libraryLayout.name)
    (hnewLine : o.newLine.name = o'.newLine.name)
    (homits : o.omitsDefaultLibrary = o'.omitsDefaultLibrary)
    (hasks : o.asksExistence = o'.asksExistence) : o = o' := by
  obtain ⟨target, stages, layout, newLine, omits, asks⟩ := o
  obtain ⟨target', stages', layout', newLine', omits', asks'⟩ := o'
  obtain rfl : target = target' := by
    cases target <;> cases target' <;> simp_all [LanguageTarget.name]
  obtain rfl : stages = stages' := by
    cases stages <;> cases stages' <;> simp_all [Stages.name]
  obtain rfl : layout = layout' := by
    cases layout <;> cases layout' <;> simp_all [LibraryLayout.name]
  obtain rfl : newLine = newLine' := by
    cases newLine <;> cases newLine' <;> simp_all [NewLine.name]
  obtain rfl : omits = omits' := homits
  obtain rfl : asks = asks' := hasks
  rfl

/-- Options can be told from their text. -/
theorem options_inj {o o' : CompileOptions} {rest rest' : List Char}
    (h : o.json.chars ++ rest = o'.json.chars ++ rest') : o = o' := by
  simp only [CompileOptions.json, JsonValue.chars, JsonValue.fieldChars, List.cons_append,
    List.append_assoc, List.cons.injEq, List.append_cancel_left_eq, true_and] at h
  obtain ⟨htarget, h⟩ := JsonValue.stringText_append_inj h
  simp only [List.cons.injEq, List.append_cancel_left_eq, true_and] at h
  obtain ⟨hstages, h⟩ := JsonValue.stringText_append_inj h
  simp only [List.cons.injEq, List.append_cancel_left_eq, true_and] at h
  obtain ⟨hlayout, h⟩ := JsonValue.stringText_append_inj h
  simp only [List.cons.injEq, List.append_cancel_left_eq, true_and] at h
  obtain ⟨hnewLine, h⟩ := JsonValue.stringText_append_inj h
  simp only [List.cons.injEq, List.append_cancel_left_eq, true_and] at h
  obtain ⟨homits, h⟩ := boolText_append_inj h
  simp only [List.cons.injEq, List.append_cancel_left_eq, true_and] at h
  exact eq_of_names htarget hstages hlayout hnewLine homits (boolText_append_inj h).1

/-- The root, the digest of what it holds and the options can be told from the bytes of which the
key is the digest. -/
theorem material_inj {root root' : String} {source source' : Bytes} {o o' : CompileOptions}
    (h : material root source o = material root' source' o') :
    root = root' ∧ digestBytes source = digestBytes source' ∧ o = o' := by
  have hchars := Utf8.encode_injective h
  simp only [keyMaterial, JsonValue.chars, JsonValue.fieldChars, List.cons_append,
    List.append_assoc, List.cons.injEq, List.append_cancel_left_eq, true_and] at hchars
  obtain ⟨rfl, hchars⟩ := JsonValue.stringText_append_inj hchars
  simp only [List.cons.injEq, List.append_cancel_left_eq, true_and] at hchars
  obtain ⟨hdigest, hchars⟩ := JsonValue.stringText_append_inj hchars
  simp only [List.cons.injEq, List.append_cancel_left_eq, true_and] at hchars
  exact ⟨rfl, hdigest, options_inj hchars⟩

/-- Equal keys belong to equal roots with equal contents and options, if digests do not collide on
what is digested for them. -/
theorem eq_of_key_eq {root root' : String} {source source' : Bytes} {o o' : CompileOptions}
    (hsources : digestBytes source = digestBytes source' → source = source')
    (hmaterials : digestBytes (material root source o) = digestBytes (material root' source' o') →
      material root source o = material root' source' o')
    (hkey : key root source o = key root' source' o') :
    root = root' ∧ source = source' ∧ o = o' := by
  rw [key_eq, key_eq] at hkey
  obtain ⟨rfl, hdigest, rfl⟩ := material_inj (hmaterials hkey)
  exact ⟨rfl, hsources hdigest, rfl⟩

/-- Whether no two of the byte sequences that are digested for some inputs have one digest. -/
structure DigestsApart (inputs : String → Bytes → CompileOptions → Prop) : Prop where
  sources {root root' : String} {source source' : Bytes} {o o' : CompileOptions} :
    inputs root source o → inputs root' source' o' →
      digestBytes source = digestBytes source' → source = source'
  materials {root root' : String} {source source' : Bytes} {o o' : CompileOptions} :
    inputs root source o → inputs root' source' o' →
      digestBytes (material root source o) = digestBytes (material root' source' o') →
      material root source o = material root' source' o'

/-- Where digests do not collide, equal keys belong to equal roots with equal contents. -/
theorem DigestsApart.key_inj {inputs : String → Bytes → CompileOptions → Prop}
    {root root' : String} {source source' : Bytes} {o o' : CompileOptions}
    (h : DigestsApart inputs) (hinput : inputs root source o) (hinput' : inputs root' source' o')
    (hkey : key root source o = key root' source' o') :
    root = root' ∧ source = source' ∧ o = o' :=
  eq_of_key_eq (h.sources hinput hinput') (h.materials hinput hinput') hkey

end PipedCompiler.Cache
