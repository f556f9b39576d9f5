import Mathlib.Data.List.Forall2
import PipedCompiler.Proofs.Bridge.Lines
import PipedCompiler.Proofs.Text.Utf8

/-!
# Lines of requests

A request is got back from its line, and its line is never taken for the marker before the output.
A path may hold tags, or be one: what a line asks is settled by the tag at its start, and neither
tag starts with the other.
-/

namespace PipedCompiler.Bridge

open PipedCompiler.Text

/-- The tags in bytes. -/
theorem tag_presence : RequestKind.presence.tag =
    [0x53, 0x52, 0x43, 0x42, 0x52, 0x49, 0x44, 0x47, 0x45, 0x5f] ++
      [0x46, 0x49, 0x4c, 0x45, 0x45, 0x58, 0x49, 0x53, 0x54, 0x53] := by
  decide

theorem tag_contents : RequestKind.contents.tag =
    [0x53, 0x52, 0x43, 0x42, 0x52, 0x49, 0x44, 0x47, 0x45, 0x5f] ++
      [0x52, 0x45, 0x41, 0x44, 0x46, 0x49, 0x4c, 0x45] := by
  decide

theorem outputTag_eq : outputTag =
    [0x53, 0x52, 0x43, 0x42, 0x52, 0x49, 0x44, 0x47, 0x45, 0x5f] ++
      [0x4f, 0x55, 0x54, 0x50, 0x55, 0x54] := by
  decide

theorem lineFeed_notMem_tag (kind : RequestKind) : lineFeed ∉ kind.tag := by
  cases kind <;> decide

theorem lineFeed_notMem_outputTag : lineFeed ∉ outputTag := by
  decide

/-- A line feed among the bytes of a text is one of its characters. -/
theorem lineFeed_mem_bytesOf {s : String} : lineFeed ∈ bytesOf s ↔ '\n' ∈ s.toList := by
  have hchar : '\n'.toNat < 0x80 := by decide
  exact Utf8.ofNat_mem_encode_iff hchar

@[simp] theorem chomp_append_lineFeed (bs : Bytes) : chomp (bs ++ [lineFeed]) = bs := by
  simp [chomp]

@[simp] theorem afterTag?_append (tag bs : Bytes) : afterTag? tag (tag ++ bs) = some bs := by
  simp [afterTag?]

/-- What tells the tags apart. -/
theorem afterTag?_presence_contents (bs : Bytes) :
    afterTag? RequestKind.presence.tag (RequestKind.contents.tag ++ bs) = none := by
  rw [tag_presence, tag_contents]
  rfl

theorem afterTag?_eq_some_iff {tag bs rest : Bytes} :
    afterTag? tag bs = some rest ↔ bs = tag ++ rest := by
  constructor
  · intro h
    rw [afterTag?] at h
    split at h
    · next hprefix =>
      obtain ⟨more, rfl⟩ := List.isPrefixOf_iff_prefix.mp hprefix
      rw [← Option.some.inj h, List.drop_left]
    · cases h
  · rintro rfl
    exact afterTag?_append tag rest

theorem chomp_of_notMem {bs : Bytes} (h : lineFeed ∉ bs) : chomp bs = bs := by
  rw [chomp, if_neg fun hlast ↦ h (List.mem_of_getLast? hlast)]

/-- A line is a request just if there is a tag at its start. -/
theorem ofLine?_eq_some_iff {line : Bytes} {r : Request} :
    Request.ofLine? line = some r ↔
      ∃ path, chomp line = r.kind.tag ++ path ∧ r.path = lossyString path := by
  obtain ⟨kind, name⟩ := r
  constructor
  · intro h
    rw [Request.ofLine?] at h
    split at h
    · next path hpath =>
      cases h
      exact ⟨path, afterTag?_eq_some_iff.mp hpath, rfl⟩
    · obtain ⟨path, hpath, h⟩ := Option.map_eq_some_iff.mp h
      cases h
      exact ⟨path, afterTag?_eq_some_iff.mp hpath, rfl⟩
  · rintro ⟨path, hline, rfl⟩
    rw [Request.ofLine?, hline]
    cases kind with
    | contents => simp [afterTag?_presence_contents]
    | presence => simp

/-- A line that starts with a tag is a request, whatever its path is. -/
theorem ofLine?_tag (kind : RequestKind) (path : Bytes) :
    Request.ofLine? (kind.tag ++ path ++ [lineFeed]) = some ⟨kind, lossyString path⟩ :=
  ofLine?_eq_some_iff.mpr ⟨path, chomp_append_lineFeed _, rfl⟩

/-- No other line is a request. -/
theorem tag_of_ofLine? {line : Bytes} {r : Request}
    (h : Request.ofLine? (line ++ [lineFeed]) = some r) : ∃ path, line = r.kind.tag ++ path := by
  obtain ⟨path, hline, -⟩ := ofLine?_eq_some_iff.mp h
  exact ⟨path, by rwa [chomp_append_lineFeed] at hline⟩

/-- No line that starts with a tag is the marker before the output. -/
theorem isOutputMarker_tag (kind : RequestKind) (path : Bytes) :
    isOutputMarker (kind.tag ++ path ++ [lineFeed]) = false := by
  rw [isOutputMarker, chomp_append_lineFeed, decide_eq_false_iff_not, outputTag_eq]
  cases kind with
  | contents => rw [tag_contents, List.append_assoc, List.append_cancel_left_eq]; simp
  | presence => rw [tag_presence, List.append_assoc, List.append_cancel_left_eq]; simp

namespace Request

/-- The line of a request, without its line feed. -/
def text (r : Request) : Bytes :=
  r.kind.tag ++ bytesOf r.path

theorem encode_eq {r : Request} (h : lineFeed ∉ bytesOf r.path) :
    r.encode = .ok (r.text ++ [lineFeed]) := by
  simp [encode, text, h]

theorem lineFeed_notMem_of_encode {r : Request} {line : Bytes} (h : r.encode = .ok line) :
    lineFeed ∉ bytesOf r.path := by
  intro hpath
  simp [encode, hpath] at h

theorem lineFeed_notMem_text {r : Request} (h : lineFeed ∉ bytesOf r.path) :
    lineFeed ∉ r.text := by
  rw [text, List.mem_append, not_or]
  exact ⟨lineFeed_notMem_tag r.kind, h⟩

/-- A request is got back from its line. -/
theorem ofLine?_text (r : Request) : ofLine? (r.text ++ [lineFeed]) = some r := by
  rw [text, ofLine?_tag, lossyString_bytesOf]

/-- No request looks like the marker before the output. -/
theorem isOutputMarker_text (r : Request) : isOutputMarker (r.text ++ [lineFeed]) = false :=
  isOutputMarker_tag r.kind (bytesOf r.path)

theorem encode_eq_error_iff {r : Request} :
    r.encode = .error (.invalidPath r.path) ↔ '\n' ∈ r.path.toList := by
  rw [← lineFeed_mem_bytesOf]
  constructor
  · intro h
    by_contra hpath
    rw [encode_eq hpath] at h
    cases h
  · intro h
    simp [encode, h]

/-- A text that is the line of a request is the line that the request has. -/
theorem encode_of_bytesOf {text : String} {path : Bytes} {r : Request}
    (hline : lineFeed ∉ bytesOf text) (htag : bytesOf text = r.kind.tag ++ path)
    (hpath : r.path = lossyString path) : r.encode = .ok (bytesOf text ++ [lineFeed]) := by
  obtain ⟨tag, hkind⟩ : ∃ tag, r.kind.tag = Utf8.encode tag := by
    cases r.kind <;> exact ⟨_, rfl⟩
  -- The tag is a text, so what is behind it is one too, and none of it gets lost.
  obtain ⟨name, -, rfl⟩ : ∃ name, text.toList = tag ++ name ∧ path = Utf8.encode name :=
    Utf8.exists_of_encode_eq_append (hkind ▸ htag)
  have hbytes : bytesOf r.path = Utf8.encode name := by
    rw [hpath, lossyString, Utf8.decodeLossy_encode, bytesOf, String.toList_ofList]
  rw [htag, List.mem_append, not_or] at hline
  rw [encode_eq (hbytes ▸ hline.2), Request.text, htag, hbytes]

/-- The lines of requests are cut apart where they have been put together. -/
theorem exists_cutLines {rs : List Request} (h : ∀ r ∈ rs, '\n' ∉ r.path.toList) :
    ∃ lines, List.Forall₂ (fun r line ↦ r.encode = .ok line) rs lines ∧
      (cutLines lines.flatten).map ofLine? = rs.map some := by
  induction rs with
  | nil => exact ⟨[], .nil, rfl⟩
  | cons r rs ih =>
      rw [List.forall_mem_cons] at h
      have hpath : lineFeed ∉ bytesOf r.path := fun hmem ↦ h.1 (lineFeed_mem_bytesOf.mp hmem)
      obtain ⟨lines, hlines, hcut⟩ := ih h.2
      refine ⟨(r.text ++ [lineFeed]) :: lines, .cons (encode_eq hpath) hlines, ?_⟩
      rw [List.flatten_cons, List.append_assoc, List.singleton_append,
        cutLines_append_lineFeed (lineFeed_notMem_text hpath), List.map_cons, hcut, ofLine?_text,
        List.map_cons]

end Request

theorem isOutputMarker_outputTag : isOutputMarker (outputTag ++ [lineFeed]) = true := by
  rw [isOutputMarker, chomp_append_lineFeed, decide_eq_true]
  rfl

/-- Requests have a line just if there is no line feed in their path, are got back from it, and do
not look like the marker.  A text in one line that is a request is, but for the line feed at its
end, the line of this request.  And of any number of requests that have lines, each is got back
when their lines are cut apart again. -/
theorem requestLines_codec :
    (∀ r : Request,
      (r.encode = .error (.invalidPath r.path) ↔ '\n' ∈ r.path.toList) ∧
      ('\n' ∉ r.path.toList → ∃ line, r.encode = .ok line ∧ Request.ofLine? line = some r ∧
        isOutputMarker line = false)) ∧
    (∀ (line content : Bytes) (r : Request), (∃ text, line = bytesOf text) → lineFeed ∉ content →
      line = content ∨ line = content ++ [lineFeed] → Request.ofLine? line = some r →
        r.encode = .ok (content ++ [lineFeed])) ∧
    ∀ rs : List Request, (∀ r ∈ rs, '\n' ∉ r.path.toList) →
      ∃ lines, List.Forall₂ (fun r line ↦ r.encode = .ok line) rs lines ∧
        (cutLines lines.flatten).map Request.ofLine? = rs.map some := by
  refine ⟨fun r ↦ ⟨Request.encode_eq_error_iff, fun hpath ↦ ?_⟩, ?_,
    fun rs hrs ↦ Request.exists_cutLines hrs⟩
  · have hbytes : lineFeed ∉ bytesOf r.path := fun hmem ↦ hpath (lineFeed_mem_bytesOf.mp hmem)
    exact ⟨_, Request.encode_eq hbytes, r.ofLine?_text, r.isOutputMarker_text⟩
  · rintro line content r ⟨text, rfl⟩ hcontent hline hr
    obtain ⟨path, htag, hpath⟩ := ofLine?_eq_some_iff.mp hr
    rcases hline with rfl | hline
    · rw [chomp_of_notMem hcontent] at htag
      exact Request.encode_of_bytesOf hcontent htag hpath
    · obtain ⟨cs, -, hcs⟩ := Utf8.exists_of_encode_eq_concat (c := '\n') (by decide) hline
      obtain rfl : content = bytesOf (String.ofList cs) := by
        rw [bytesOf, String.toList_ofList, hcs]
      rw [hline, chomp_append_lineFeed] at htag
      exact Request.encode_of_bytesOf hcontent htag hpath

/-- A path that is the marker, and two requests one behind the other. -/
theorem requestLines_codec_markerPath :
    let r : Request := ⟨.contents, "SRCBRIDGE_OUTPUT"⟩
    Request.ofLine? (bytesOf "SRCBRIDGE_READFILESRCBRIDGE_OUTPUT") = some r ∧
      r.encode = .ok (bytesOf "SRCBRIDGE_READFILESRCBRIDGE_OUTPUT\n") ∧
      ∃ lines, List.Forall₂ (fun r line ↦ r.encode = .ok line) [r, ⟨.presence, "é"⟩] lines ∧
        (cutLines lines.flatten).map Request.ofLine? = [some r, some ⟨.presence, "é"⟩] := by
  intro r
  have hread : Request.ofLine? (bytesOf "SRCBRIDGE_READFILESRCBRIDGE_OUTPUT") = some r := by
    decide
  refine ⟨hread, ?_, requestLines_codec.2.2 _ (by decide)⟩
  exact requestLines_codec.2.1 _ (bytesOf "SRCBRIDGE_READFILESRCBRIDGE_OUTPUT") r ⟨_, rfl⟩
    (by decide) (.inl rfl) hread

end PipedCompiler.Bridge
