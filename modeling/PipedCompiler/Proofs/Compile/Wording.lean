import PipedCompiler.Proofs.Compile.Sought
import PipedCompiler.Proofs.Compile.Verdict
import PipedCompiler.Proofs.Diagnostic.Reading
import PipedCompiler.Proofs.Language.ModulePath
import PipedCompiler.Proofs.Language.NameTokens

/-!
# What compiles say

All that a compile says quotes names, specifiers and paths.  It can be read off its lines if the
paths can be told from what stands behind them, and no specifier has a line feed.
-/

namespace PipedCompiler.Diagnostic

open PipedCompiler.Text

/-- Whether a code is one, and a message is a sentence on one line. -/
abbrev IsWording (code message : String) : Prop :=
  IsCode code.toList ∧ '\n' ∉ message.toList ∧ message.toList.getLast? = some '.'

theorem IsWording.endsSolid {code message : String} (h : IsWording code message) :
    EndsSolid message.toList :=
  ⟨'.', h.2.2, by decide⟩

/-- What is said about a place in a file can be read if the name of the file can. -/
theorem IsWording.legible_place {code message : String} (h : IsWording code message)
    {f : SourceFile} (hfile : IsFileName f.path.toList) (offset : Nat) :
    ((error code message).place f offset).Legible :=
  ⟨h.1, h.2.1, h.endsSolid, .located _ _ hfile⟩

theorem isWording_quoting {code start quoted rest : String} (hcode : IsCode code.toList)
    (hstart : '\n' ∉ start.toList) (hquoted : '\n' ∉ quoted.toList) (hrest : '\n' ∉ rest.toList)
    (hend : rest.toList.getLast? = some '.') : IsWording code (start ++ quoted ++ rest) := by
  refine ⟨hcode, by simp [hstart, hquoted, hrest], ?_⟩
  rw [String.toList_append, List.getLast?_append, hend]
  rfl

/-- What quotes a path can be read if the path can, and nothing in the rest of it looks like another
diagnostic. -/
theorem IsWording.legible_quoting {code message : String} (h : IsWording code message)
    (start path rest : String)
    (hmessage : message.toList = start.toList ++ '\'' :: (path.toList ++ '\'' :: rest.toList))
    (hhead : ∃ c ∈ start.toList.head?, c ∉ ['e', 'w', 'm']) (hstart : ':' ∉ start.toList)
    (hpath : ¬ Announces path.toList) (hrest : ¬ HoldsMatter rest.toList) :
    (error code message).Legible := by
  have hholds := not_holdsMatter_quoting hstart hpath hrest
  obtain ⟨c, hc, hletter⟩ := hhead
  obtain ⟨cs, hcs⟩ := List.head?_eq_some_iff.mp hc
  refine ⟨h.1, h.2.1, h.endsSolid, .nowhere ?_⟩
  show ¬ HoldsMatter (':' :: ' ' :: message.toList)
  rw [hcs] at hmessage hholds
  rw [hmessage]
  exact not_holdsMatter_behind hletter hholds

end PipedCompiler.Diagnostic

namespace PipedCompiler.Compile

open PipedCompiler.Text PipedCompiler.Bridge PipedCompiler.Language PipedCompiler.Diagnostic

/-! ## Faults in files -/

theorem isWording_lexical (fault : LexicalFault) : IsWording fault.code fault.message := by
  cases fault <;> decide

theorem isWording_parse {fault : ParseFault} (h : fault.IsKnown) :
    IsWording fault.code fault.message := by
  cases fault with
  | expected mark =>
      have hmarks : ∀ mark ∈ expectedMarks,
          IsWording (ParseFault.expected mark).code (ParseFault.expected mark).message := by decide
      exact hmarks mark h
  | identifierExpected => decide
  | stringExpected => decide
  | expressionExpected => decide
  | uninitialized name =>
      show IsWording "TS1155" "'const' declarations must be initialized."
      decide

theorem isWording_name (fault : NameFault) {name : String} (hname : '\n' ∉ name.toList) :
    IsWording fault.code (fault.message name) := by
  cases fault with
  | duplicate => exact isWording_quoting (by decide) (by decide) hname (by decide) (by decide)
  | unknown => exact isWording_quoting (by decide) (by decide) hname (by decide) (by decide)
  | writtenConstant =>
      exact isWording_quoting (by decide) (by decide) hname (by decide) (by decide)
  | writtenImport => exact isWording_quoting (by decide) (by decide) hname (by decide) (by decide)

theorem isWording_import {specifier : String} (hspecifier : '\n' ∉ specifier.toList) :
    IsWording "TS2307" s!"Cannot find module '{specifier}'." :=
  isWording_quoting (by decide) (by decide) hspecifier (by decide) (by decide)

/-! ## Faults of paths -/

section Path

variable {path : String}

theorem legible_missing (hpath : IsFileName path.toList) :
    (Diagnostic.error "TS6053" s!"File '{path}' not found.").Legible := by
  have hwording : IsWording "TS6053" s!"File '{path}' not found." :=
    isWording_quoting (by decide) (by decide) hpath.one_line (by decide) (by decide)
  exact hwording.legible_quoting "File " path " not found." (by simp [toString])
    ⟨'F', by decide, by decide⟩ (by decide) hpath.not_announces
    (not_holdsMatter_of_notMem (by decide))

theorem legible_overwritten (hpath : IsFileName path.toList) :
    (Program.overwritten path).Legible := by
  have hwording : IsWording "TS5056"
      s!"Cannot write file '{path}' because it would be overwritten by multiple input files." :=
    isWording_quoting (by decide) (by decide) hpath.one_line (by decide) (by decide)
  exact hwording.legible_quoting "Cannot write file " path
    " because it would be overwritten by multiple input files." (by simp [toString])
    ⟨'C', by decide, by decide⟩ (by decide) hpath.not_announces
    (not_holdsMatter_of_notMem (by decide))

/-- A decoding error is worded without colons and line feeds. -/
theorem toList_decodeError (e : Utf8.DecodeError) :
    ∃ cs, e.message.toList = 'i' :: cs ∧ ':' ∉ cs ∧ '\n' ∉ cs := by
  have hdigits (n : Nat) {c : Char} (hc : c.isDigit = false) : c ∉ Nat.toDigits 10 n := by
    intro hmem
    rw [Decimal.isDigit_of_mem_digits hmem] at hc
    cases hc
  have hcolon (n : Nat) := hdigits n (c := ':') rfl
  have hline (n : Nat) := hdigits n (c := '\n') rfl
  obtain ⟨validUpTo, length⟩ := e
  cases length with
  | none =>
      refine ⟨"ncomplete utf-8 byte sequence from index ".toList ++ Nat.toDigits 10 validUpTo,
        ?_, ?_, ?_⟩
      · simp [Utf8.DecodeError.message, toString]
      · simp [hcolon]
      · simp [hline]
  | some length =>
      refine ⟨"nvalid utf-8 sequence of ".toList ++ (Nat.toDigits 10 length ++
        (" bytes from index ".toList ++ Nat.toDigits 10 validUpTo)), ?_, ?_, ?_⟩
      · simp [Utf8.DecodeError.message, toString]
      · simp [hcolon]
      · simp [hline]

theorem legible_undecodable (hpath : IsFileName path.toList) (e : Utf8.DecodeError) :
    (Host.undecodable path e).Legible := by
  obtain ⟨cs, hcs, hcolon, hline⟩ := toList_decodeError e
  have hwording : IsWording "TS5012" s!"Cannot read file '{path}': {e.message}." := by
    refine isWording_quoting (by decide) ?_ ?_ (by decide) (by decide)
    · simp [toString, hpath.one_line]
    · simpa [toString, hcs] using hline
  refine hwording.legible_quoting "Cannot read file " path (": " ++ e.message ++ ".")
    (by simp [toString]) ⟨'C', by decide, by decide⟩ (by decide) hpath.not_announces ?_
  have hrest : (": " ++ e.message ++ ".").toList = ':' :: ' ' :: 'i' :: (cs ++ ['.']) := by
    simp [hcs]
  rw [hrest]
  exact not_holdsMatter_behind (by decide) (not_holdsMatter_of_notMem (by simp [hcolon]))

end Path

/-! ## Programs -/

theorem isFileName_outputPath {path : String} (h : IsFileName path.toList) :
    IsFileName (outputPath path).toList := by
  have hstem := stem_prefix path.toList
  rw [outputPath, String.toList_ofList]
  refine ⟨by simp, ?_, ?_⟩
  · rw [List.mem_append, not_or]
    exact ⟨fun hmem ↦ h.one_line (hstem.subset hmem), by decide⟩
  · exact fun hannounces ↦ h.not_announces
      ((Announces.of_append (by decide) hannounces).mono hstem.isInfix)

theorem Belongs.sought {files : String → Option Bytes} {options : CompileOptions}
    {root path : String} (h : Belongs files options root path) :
    Sought files options root path := by
  obtain ⟨start, hstart, hthere, hreach⟩ := h
  cases hreach with
  | refl => exact .inl hstart
  | tail hreach himports =>
      obtain ⟨bs, tree, hfile, htree, htarget, -⟩ := himports
      obtain ⟨i, hi, hresolved⟩ := List.mem_filterMap.mp htarget
      exact .inr ⟨_, i, ⟨⟨start, hstart, hthere, hreach⟩, bs, tree, hfile, htree, hi⟩,
        mem_probes_of_resolved hresolved⟩

theorem Findings.mem_of_mem_shown {found : Findings} {stages : Stages} {d : Diagnostic}
    (hd : d ∈ found.shown stages) :
    d ∈ found.undecodable ∨ d ∈ found.syntactic ∨ d ∈ found.global ∨ d ∈ found.semantic ∨
      d ∈ found.emission := by
  have htypes : d ∈ found.types → d ∈ found.global ∨ d ∈ found.semantic := by
    rw [types]
    split
    · exact .inr
    · exact .inl
  have hloading : d ∈ found.loading → d ∈ found.undecodable ∨ d ∈ found.syntactic :=
    List.mem_append.mp
  have hcases : d ∈ found.loading ∨ d ∈ found.types ∨ d ∈ found.emission := by
    cases stages with
    | separate =>
        rw [shown] at hd
        split at hd
        · exact .inl hd
        · split at hd
          · exact .inr (.inl hd)
          · exact .inr (.inr hd)
    | unified =>
        rw [shown] at hd
        split at hd
        · exact .inl hd
        · exact .inr (List.mem_append.mp hd)
  tauto

theorem Program.reported_conclusion (p : Program) (options : CompileOptions)
    (undecodable : List Diagnostic) :
    (p.conclusion options undecodable).reported =
      (p.findings options undecodable).shown options.stages := by
  rw [conclusion]
  split
  · next hshown => rw [hshown]
  · rfl

theorem Program.exists_overwritten {canonicalName : String → String} {render : LoadedFile → String}
    {taken : List String} {fs : List LoadedFile} {d : Diagnostic}
    (hd : d ∈ (emitFiles canonicalName render taken fs).diagnostics) :
    ∃ f ∈ fs, d = overwritten (outputPath f.source.path) := by
  induction fs generalizing taken with
  | nil => cases hd
  | cons f fs ih =>
      rw [emitFiles] at hd
      dsimp only at hd
      have hlater {taken : List String}
          (hd : d ∈ (emitFiles canonicalName render taken fs).diagnostics) :
          ∃ f' ∈ f :: fs, d = overwritten (outputPath f'.source.path) := by
        obtain ⟨f', hf', h⟩ := ih hd
        exact ⟨f', .tail _ hf', h⟩
      split at hd
      · rcases List.mem_cons.mp hd with rfl | hd
        · exact ⟨f, .head _, rfl⟩
        · exact hlater hd
      · exact hlater hd

theorem exists_undecodable {files : String → Option Bytes} {r : Request} {d : Diagnostic}
    (h : complaintAbout? files r = some d) : ∃ e, d = Host.undecodable r.path e := by
  rw [complaintAbout?] at h
  split at h
  · obtain ⟨bs, -, hcomplaint⟩ := Option.bind_eq_some_iff.mp h
    rw [Host.complaint?] at hcomplaint
    split at hcomplaint
    · cases hcomplaint
    · next e _ =>
      cases hcomplaint
      exact ⟨e, rfl⟩
  · cases h

/-- A fault of a text is worded on one line. -/
theorem isWording_of_mem_errors {cs : List Char} {tree : SyntaxTree}
    (htree : SyntaxTree.ofText? cs = some tree) {e : SyntaxError} (he : e ∈ tree.errors) :
    IsWording e.fault.code e.fault.message := by
  obtain ⟨scan, -, rfl⟩ := Option.map_eq_some_iff.mp htree
  rcases hfault : e.fault with fault | fault
  · exact isWording_lexical fault
  · exact isWording_parse (SyntaxTree.known_of_mem_errors he hfault)

section Compile

variable {files : String → Option Bytes} {options : CompileOptions} {depth : Nat} {root : String}

/-- All that a compile reports can be read off its lines, if the paths that it may ask about can be
told from what stands behind them and no import that leads nowhere has a line feed in its
specifier. -/
theorem legible_of_mem_reported {compiled : Compiled}
    (hrun : (compile options depth root).run files = .ok compiled)
    (hpaths : ∀ path, Sought files options root path → IsFileName path.toList)
    (hspecifiers : ∀ importer i, Stands files options root importer i →
      leads files importer i = false → '\n' ∉ i.specifier.toList) :
    ∀ d ∈ compiled.reported, d.Legible := by
  obtain ⟨t, host, hwalk, -, hload, rfl⟩ := walk_of_run_compile hrun
  have hfollows := Program.followsImports_ofTrail hwalk
  have hmissing : ∀ path ∈ (Program.ofTrail files options root t).missing,
      path ∈ starts options root := fun path hpath ↦ List.mem_of_mem_filter hpath
  generalize Program.ofTrail files options root t = p at hload hfollows hmissing ⊢
  have hbelongs : ∀ f ∈ p.files, Belongs files options root f.source.path :=
    fun f hf ↦ (hfollows.mem_paths _).mp (List.mem_map_of_mem hf)
  have hname : ∀ f ∈ p.files, IsFileName f.source.path.toList :=
    fun f hf ↦ hpaths _ (hbelongs f hf).sought
  rw [Program.reported_conclusion]
  intro d hd
  rcases Findings.mem_of_mem_shown hd with hd | hd | hd | hd | hd
  · obtain ⟨host', hsaid, hhost⟩ :=
      (accounts_complaints files).load_program .plain depth root (.start options)
    obtain rfl := hhost p host hload
    obtain ⟨r, hr, hcomplaint⟩ := List.mem_filterMap.mp (hsaid ▸ hd)
    obtain ⟨e, rfl⟩ := exists_undecodable hcomplaint
    rw [← requests_compile] at hr
    exact legible_undecodable (hpaths _ (sought_of_mem_requests hr)) e
  · obtain ⟨f, hf, hd⟩ := List.mem_flatMap.mp hd
    obtain ⟨e, he, rfl⟩ := List.mem_map.mp hd
    obtain ⟨-, -, -, htree⟩ := hfollows.tree f hf
    exact (isWording_of_mem_errors htree he).legible_place (hname f hf) e.offset
  · obtain ⟨path, hpath, rfl⟩ := List.mem_map.mp hd
    exact legible_missing (hpaths path (.inl (hmissing path hpath)))
  · obtain ⟨f, hf, hd⟩ := List.mem_flatMap.mp hd
    obtain ⟨bs, hfile, hsource, htree⟩ := hfollows.tree f hf
    rcases List.mem_append.mp hd with hd | hd
    · rw [hfollows.unresolved f hf] at hd
      obtain ⟨i, hi, rfl⟩ := List.mem_map.mp hd
      rw [hsource] at htree
      have hstands : Stands files options root f.source.path i :=
        ⟨hbelongs f hf, bs, f.tree, hfile, htree, List.mem_of_mem_filter hi⟩
      have hleads : leads files f.source.path i = false := by
        simpa using (List.mem_filter.mp hi).2
      exact (isWording_import (hspecifiers _ i hstands hleads)).legible_place (hname f hf) i.offset
    · split at hd
      · cases hd
      · obtain ⟨e, he, rfl⟩ := List.mem_map.mp hd
        have hword := (isWord_of_mem_nameErrors htree he).newline_notMem
        exact (isWording_name e.fault hword).legible_place (hname f hf) e.name.offset
  · obtain ⟨f, hf, rfl⟩ := Program.exists_overwritten hd
    exact legible_overwritten (isFileName_outputPath (hname f (List.mem_of_mem_filter hf)))

end Compile

end PipedCompiler.Compile
