import PipedCompiler.Proofs.Parent.Lines

/-!
# Output from any compiler

A parent cannot trust what is at the other end: a compiler may write any bytes at all.  `Delivers`
is the grammar of those that the parent takes output from, and there are no others.
-/

namespace PipedCompiler.Parent

open PipedCompiler.Text PipedCompiler.Bridge

/-! ## The grammar -/

/-- Whether bytes are the line of a request: a tag, any path, and a line feed. -/
def IsRequestLine (line : Bytes) : Prop :=
  ∃ (kind : RequestKind) (path : Bytes), lineFeed ∉ path ∧ line = kind.tag ++ path ++ [lineFeed]

/-- Whether bytes are the lines of that many requests. -/
def AreRequestLines (bs : Bytes) (count : Nat) : Prop :=
  ∃ lines : List Bytes,
    (∀ line ∈ lines, IsRequestLine line) ∧ bs = lines.flatten ∧ count = lines.length

/-- Whether bytes are the lines of that many requests, then the line of the marker, and then one
frame with this output and nothing behind it. -/
def Delivers (bs : Bytes) (requests : Nat) (body : Bytes) : Prop :=
  ∃ asked frame, AreRequestLines asked requests ∧ Frame .contents frame (.contents body) ∧
    bs = asked ++ (outputTag ++ lineFeed :: frame)

theorem isRequestLine_iff {line : Bytes} :
    IsRequestLine line ↔ IsEnded line ∧ isRequest line = true := by
  constructor
  · rintro ⟨kind, path, hpath, rfl⟩
    refine ⟨⟨kind.tag ++ path, ?_, rfl⟩, ?_⟩
    · rw [List.mem_append, not_or]
      exact ⟨lineFeed_notMem_tag kind, hpath⟩
    · rw [isRequest, ofLine?_tag]
      rfl
  · rintro ⟨⟨start, hstart, rfl⟩, hrequest⟩
    obtain ⟨r, hr⟩ := Option.isSome_iff_exists.mp hrequest
    obtain ⟨path, rfl⟩ := tag_of_ofLine? hr
    rw [List.mem_append, not_or] at hstart
    exact ⟨r.kind, path, hstart.2, rfl⟩

/-- Bytes deliver output just if their first line that is no request is the marker, with the frame
of this output behind it. -/
theorem delivers_iff {bs body : Bytes} {requests : Nat} :
    Delivers bs requests body ↔ (requestLines bs).length = requests ∧
      ∃ marker more, otherLines bs = marker :: more ∧ isOutputMarker marker = true ∧
        Frame .contents more.flatten (.contents body) := by
  constructor
  · rintro ⟨_, frame, ⟨lines, hlines, rfl, rfl⟩, hframe, rfl⟩
    simp only [isRequestLine_iff] at hlines
    obtain ⟨hrequests, hothers⟩ := requestLines_of_marker (fun line hline ↦ (hlines line hline).1)
      (fun line hline ↦ (hlines line hline).2) frame
    refine ⟨congrArg List.length hrequests, _, _, hothers, isOutputMarker_outputTag, ?_⟩
    rwa [flatten_cutLines]
  · rintro ⟨rfl, marker, more, hothers, hmarker, hframe⟩
    -- A frame is not empty, so there is a line behind the marker, which a line feed ends then.
    have hmore : more ≠ [] := by
      rintro rfl
      exact hframe.ne_nil rfl
    obtain ⟨next, more, rfl⟩ := List.exists_cons_of_ne_nil hmore
    have hcut : cutLines bs = (requestLines bs ++ [marker]) ++ next :: more := by
      simpa using hothers ▸ cutLines_eq bs
    have hended := isEnded_of_cutLines hcut
    obtain ⟨start, -, rfl⟩ := hended marker (by simp)
    obtain rfl : start = outputTag := by simpa [isOutputMarker] using hmarker
    refine ⟨(requestLines bs).flatten, (next :: more).flatten,
      ⟨requestLines bs, fun line hline ↦ ?_, rfl, rfl⟩, hframe, ?_⟩
    · exact isRequestLine_iff.mpr
        ⟨hended line (List.mem_append_left _ hline), forall_isRequest bs line hline⟩
    · calc bs = (cutLines bs).flatten := (flatten_cutLines bs).symm
        _ = _ := by rw [hcut]; simp

/-- Whatever a compiler writes, output is taken from it just if it delivers this output. -/
theorem serve_eq_ok_some_iff {ρ : Type} [Resolver ρ] (s : ρ) {bs body : Bytes} {requests : Nat} :
    (serve s bs).1 = .ok ⟨some body, requests⟩ ↔ Delivers bs requests body := by
  have houtcome := serve_outcome s bs
  rw [delivers_iff, ← houtcome.ok_some_iff]
  constructor
  · intro h
    exact ⟨(houtcome.requests_eq h).symm, _, h, rfl⟩
  · rintro ⟨rfl, ⟨output, answered⟩, hok, rfl⟩
    rw [hok, ← houtcome.requests_eq hok]

end PipedCompiler.Parent
