import PipedCompiler.Parent.Serving
import PipedCompiler.Proofs.Bridge.Frame
import PipedCompiler.Proofs.Bridge.RequestLine

/-!
# What a parent takes

A parent has no memory of the lines behind it but for its sources, so what it takes can be cut
anywhere: the bytes of a line are gathered until the line feed comes, which is answered at once.
-/

namespace PipedCompiler.Parent

open PipedCompiler.Text PipedCompiler.Bridge

variable {ρ : Type} [Resolver ρ]

/-! ## Sources that do not change -/

/-- The sources after some requests have been answered. -/
def afterAll (rs : List Request) (s : ρ) : ρ :=
  rs.foldl (fun s r ↦ (answer r s).2) s

@[simp] theorem afterAll_nil (s : ρ) : afterAll [] s = s := rfl

theorem afterAll_concat (rs : List Request) (r : Request) (s : ρ) :
    afterAll (rs ++ [r]) s = (answer r (afterAll rs s)).2 := by
  rw [afterAll, List.foldl_append]
  rfl

/-- Whether no answer depends on what has been asked before. -/
def FixedAnswers (s : ρ) : Prop :=
  ∀ rs r, (answer r (afterAll rs s)).1 = (answer r s).1

theorem answer_contents (path : String) (files : Table Bytes) :
    answer ⟨.contents, path⟩ files = (.ofContents (files.get? path), files) :=
  rfl

theorem answer_presence (path : String) (files : Table Bytes) :
    answer ⟨.presence, path⟩ files = (.presence (files.get? path).isSome, files) :=
  rfl

theorem answer_table (r : Request) (files : Table Bytes) : (answer r files).2 = files := by
  obtain ⟨kind, path⟩ := r
  cases kind with
  | contents => rw [answer_contents]
  | presence => rw [answer_presence]

/-- A table is the simplest case. -/
theorem fixedAnswers_table (files : Table Bytes) : FixedAnswers files := by
  intro rs r
  have h : afterAll rs files = files := by
    induction rs with
    | nil => rfl
    | cons r rs ih =>
        rw [afterAll, List.foldl_cons, answer_table]
        exact ih
  rw [h]

/-- An answer fits the request. -/
theorem kind_answer (r : Request) (s : ρ) : (answer r s).1.kind = r.kind := by
  unfold answer
  split
  · next hkind =>
    rw [hkind]
    split
    · next found _ _ => cases found <;> rfl
    · rfl
  · next hkind =>
    rw [hkind]
    split <;> rfl

/-- The frame of an answer. -/
theorem frame_answer {r : Request} {s : ρ} (h : (answer r s).1.Countable) :
    Frame r.kind (answer r s).1.encode (answer r s).1 :=
  kind_answer r s ▸ frame_encode h

namespace Server

/-! ## Taking bytes one by one -/

theorem takeParts_eq (p : Server ρ) (parts : List Bytes) (bs : Bytes) :
    ((p.takeParts parts bs).1.reverse.flatten, (p.takeParts parts bs).2) =
      (parts.reverse.flatten ++ (p.take bs).1, (p.take bs).2) := by
  induction bs generalizing p parts with
  | nil => simp [takeParts, take]
  | cons b bs ih =>
      rw [take, takeParts, takeParts]
      rcases p.takeByte b with ⟨part, p'⟩
      cases part with
      | nil => exact ih p' parts
      | cons c cs =>
          have hparts := ih p' ((c :: cs) :: parts)
          have hone := ih p' [c :: cs]
          simp only [Prod.mk.injEq] at hparts hone
          simp only [hparts, hone]
          simp

@[simp] theorem take_nil (p : Server ρ) : p.take [] = ([], p) := rfl

theorem take_cons (p : Server ρ) (b : UInt8) (bs : Bytes) :
    p.take (b :: bs) =
      ((p.takeByte b).1 ++ ((p.takeByte b).2.take bs).1, ((p.takeByte b).2.take bs).2) := by
  rw [take, takeParts]
  rcases p.takeByte b with ⟨part, p'⟩
  cases part with
  | nil => exact takeParts_eq p' [] bs
  | cons c cs => simpa using takeParts_eq p' [c :: cs] bs

/-- Where what is taken is cut makes no difference. -/
theorem take_append (p : Server ρ) (bs cs : Bytes) :
    p.take (bs ++ cs) =
      ((p.take bs).1 ++ ((p.take bs).2.take cs).1, ((p.take bs).2.take cs).2) := by
  induction bs generalizing p with
  | nil => simp
  | cons b bs ih => simp [take_cons, ih]

theorem take_concat (p : Server ρ) (bs : Bytes) (b : UInt8) :
    (p.take (bs ++ [b])).2 = ((p.take bs).2.takeByte b).2 := by
  simp [take_append, take_cons]

section TakeByte

variable (s : ρ) (line frame : Bytes) (n : Nat)

/-- A byte within a line is kept. -/
theorem takeByte_within {b : UInt8} (hb : b ≠ lineFeed) :
    (⟨s, .requests line, n⟩ : Server ρ).takeByte b = ([], ⟨s, .requests (b :: line), n⟩) := by
  rw [takeByte]
  exact if_neg hb

/-- The line feed behind a line that starts with a tag is answered. -/
theorem takeByte_tag (kind : RequestKind) (path : Bytes) :
    (⟨s, .requests (kind.tag ++ path).reverse, n⟩ : Server ρ).takeByte lineFeed =
      ((answer ⟨kind, lossyString path⟩ s).1.encode,
        ⟨(answer ⟨kind, lossyString path⟩ s).2, .requests [], n + 1⟩) := by
  rw [takeByte]
  dsimp only
  rw [if_pos rfl, List.reverse_cons, List.reverse_reverse, takeLine, isOutputMarker_tag,
    ofLine?_tag]
  rfl

/-- The line feed behind a request is answered. -/
theorem takeByte_request (r : Request) :
    (⟨s, .requests r.text.reverse, n⟩ : Server ρ).takeByte lineFeed =
      ((answer r s).1.encode, ⟨(answer r s).2, .requests [], n + 1⟩) := by
  rw [Request.text, takeByte_tag, lossyString_bytesOf]

/-- The next byte of a request is one within its line, or the last one. -/
theorem takeByte_line {r : Request} (hr : lineFeed ∉ bytesOf r.path) {before up : Bytes}
    {b : UInt8} (h : before ++ b :: up = r.text ++ [lineFeed]) :
    (up ≠ [] ∧ (⟨s, .requests before.reverse, n⟩ : Server ρ).takeByte b =
        ([], ⟨s, .requests (before ++ [b]).reverse, n⟩)) ∨
      (up = [] ∧ (⟨s, .requests before.reverse, n⟩ : Server ρ).takeByte b =
        ((answer r s).1.encode, ⟨(answer r s).2, .requests [], n + 1⟩)) := by
  rcases List.eq_nil_or_concat up with rfl | ⟨up, last, rfl⟩
  · obtain ⟨rfl, hb⟩ := List.append_inj' h rfl
    obtain rfl : b = lineFeed := List.head_eq_of_cons_eq hb
    exact .inr ⟨rfl, takeByte_request s n r⟩
  · refine .inl ⟨by simp, ?_⟩
    have hb : b ≠ lineFeed := by
      rintro rfl
      rw [List.concat_eq_append, ← List.cons_append, ← List.append_assoc] at h
      obtain ⟨htext, -⟩ := List.append_inj' h rfl
      exact Request.lineFeed_notMem_text hr (htext ▸ by simp)
    rw [takeByte_within s _ n hb, List.reverse_concat]

/-- The line feed behind the marker is not answered. -/
theorem takeByte_marker :
    (⟨s, .requests outputTag.reverse, n⟩ : Server ρ).takeByte lineFeed =
      ([], ⟨s, .output [], n⟩) := by
  simp [takeByte, takeLine, isOutputMarker_outputTag]

/-- Behind the marker everything is kept. -/
theorem takeByte_output (b : UInt8) :
    (⟨s, .output frame, n⟩ : Server ρ).takeByte b = ([], ⟨s, .output (b :: frame), n⟩) :=
  rfl

end TakeByte

/-! ## Taking what a compiler writes at once -/

section Take

variable (s : ρ) (n : Nat)

/-- Bytes within a line are kept. -/
theorem take_within {line bs : Bytes} (hbs : lineFeed ∉ bs) :
    (⟨s, .requests line, n⟩ : Server ρ).take bs = ([], ⟨s, .requests (bs.reverse ++ line), n⟩) := by
  induction bs generalizing line with
  | nil => rfl
  | cons b bs ih =>
      rw [List.mem_cons, not_or] at hbs
      rw [take_cons, takeByte_within s line n (Ne.symm hbs.1), ih hbs.2]
      simp

/-- A line that starts with a tag is answered, whatever its path is. -/
theorem take_tag {kind : RequestKind} {path : Bytes} (h : lineFeed ∉ path) :
    (⟨s, .requests [], n⟩ : Server ρ).take (kind.tag ++ path ++ [lineFeed]) =
      ((answer ⟨kind, lossyString path⟩ s).1.encode,
        ⟨(answer ⟨kind, lossyString path⟩ s).2, .requests [], n + 1⟩) := by
  have hline : lineFeed ∉ kind.tag ++ path := by
    rw [List.mem_append, not_or]
    exact ⟨lineFeed_notMem_tag kind, h⟩
  rw [take_append, take_within s n hline, List.append_nil, take_cons, takeByte_tag]
  simp

/-- The line of a request is answered. -/
theorem take_request {r : Request} {line : Bytes} (h : r.encode = .ok line) :
    (⟨s, .requests [], n⟩ : Server ρ).take line =
      ((answer r s).1.encode, ⟨(answer r s).2, .requests [], n + 1⟩) := by
  have hpath := Request.lineFeed_notMem_of_encode h
  rw [Request.encode_eq hpath] at h
  obtain rfl := Except.ok.inj h
  rw [Request.text, take_tag s n hpath, lossyString_bytesOf]

/-- Behind the marker everything is kept. -/
theorem take_output (frame bs : Bytes) :
    (⟨s, .output frame, n⟩ : Server ρ).take bs = ([], ⟨s, .output (bs.reverse ++ frame), n⟩) := by
  induction bs generalizing frame with
  | nil => rfl
  | cons b bs ih =>
      rw [take_cons, takeByte_output, ih]
      simp

/-- The output is kept, and nothing of it is answered. -/
theorem take_encodeOutput (text : Bytes) :
    (⟨s, .requests [], n⟩ : Server ρ).take (encodeOutput text) =
      ([], ⟨s, .output (Response.contentsFrame text).reverse, n⟩) := by
  have htag : lineFeed ∉ outputTag := by decide
  rw [encodeOutput, take_append, take_within s n htag, List.append_nil, take_cons, takeByte_marker,
    take_output]
  simp

end Take

/-! ## The output -/

/-- Output is had from a frame, with nothing behind it, and from nothing else. -/
theorem outputOf_eq_ok_iff {frame body : Bytes} :
    outputOf frame = .ok body ↔ Frame .contents frame (.contents body) := by
  constructor
  · intro h
    rw [outputOf] at h
    split at h
    · cases h
    · cases h
    next found rest hread =>
    split at h
    · next hrest =>
      obtain rfl := Except.ok.inj h
      have hresponse : Response.read .contents (.ofBytes frame) = (.ok (.contents found), rest) := by
        rw [Response.read, hread]
        rfl
      obtain ⟨f, hframe, hbytes⟩ := frame_of_read hresponse
      rw [hrest, List.append_nil] at hbytes
      obtain rfl : frame = f := by
        simpa [Stream.ofBytes, Stream.toBytes, Stream.deliveredBytes] using hbytes
      exact hframe
    · cases h
  · intro hframe
    have hbrings : (Stream.ofBytes frame).Brings (frame ++ []) (.spent .closed) := by
      rw [List.append_nil]
      exact .ofBytes frame
    obtain ⟨rest, hread, hrest⟩ := hframe.read_body hbrings
    rw [outputOf, hread]
    dsimp only
    rw [hrest.toBytes_eq]
    rfl

/-- The output is got back from its frame. -/
theorem outputOf_contentsFrame {text : Bytes} (h : text.length < Nat.pow 2 63) :
    outputOf (Response.contentsFrame text) = .ok text :=
  outputOf_eq_ok_iff.mpr (frame_encode (r := .contents text) h)

end Server

end PipedCompiler.Parent
