import PipedCompiler.Proofs.Parent.Serving

/-!
# Serving line by line

A parent takes bytes one by one, but what becomes of them is told by their lines.  Requests are
answered as long as there are no other lines; the first line that is no request settles what all
that is behind it is taken for.
-/

namespace PipedCompiler.Parent

open PipedCompiler.Text PipedCompiler.Bridge

/-! ## The lines that a parent takes -/

/-- Whether a line is a request. -/
def isRequest (line : Bytes) : Bool :=
  (Request.ofLine? line).isSome

/-- The lines of some bytes before the first one that is no request. -/
def requestLines (bs : Bytes) : List Bytes :=
  (cutLines bs).takeWhile isRequest

/-- The first line of some bytes that is no request, and all behind it. -/
def otherLines (bs : Bytes) : List Bytes :=
  (cutLines bs).dropWhile isRequest

/-- The requests that are made before the first line that is none. -/
def requestsOf (bs : Bytes) : List Request :=
  (requestLines bs).filterMap Request.ofLine?

/-- What a parent is at when it has come to some lines the first of which is no request. -/
def Phase.ofLines : List Bytes → Phase
  | [] => .requests []
  | line :: more =>
    if isOutputMarker line then .output more.flatten.reverse else .failed (.strayLine line)

/-- The marker is no request. -/
theorem ofLine?_of_isOutputMarker {line : Bytes} (h : isOutputMarker line = true) :
    Request.ofLine? line = none := by
  have hline : chomp line = outputTag := of_decide_eq_true h
  rw [Request.ofLine?, hline]
  decide

section FirstLine

variable {bs rest line : Bytes} {more : List Bytes}

/-- A first line that is a request is followed by what is behind it. -/
theorem lines_of_request {r : Request} (hcut : cutLines bs = line :: cutLines rest)
    (hr : Request.ofLine? line = some r) : requestsOf bs = r :: requestsOf rest ∧
      (requestLines bs).length = (requestLines rest).length + 1 ∧
      otherLines bs = otherLines rest := by
  simp [requestsOf, requestLines, otherLines, isRequest, hcut, hr]

/-- Behind a first line that is no request, there are no more requests. -/
theorem lines_of_other (hcut : cutLines bs = line :: more) (hr : Request.ofLine? line = none) :
    requestsOf bs = [] ∧ requestLines bs = [] ∧ otherLines bs = line :: more := by
  simp [requestsOf, requestLines, otherLines, isRequest, hcut, hr]

end FirstLine

variable {ρ : Type} [Resolver ρ]

/-- What is written for requests that are made one after the other. -/
def answers : List Request → ρ → Bytes
  | [], _ => []
  | r :: rs, s => (answer r s).1.encode ++ answers rs (answer r s).2

/-- If no answer depends on what has been asked before, each is answered as if it were the only
one. -/
theorem answers_of_fixed {s : ρ} (h : FixedAnswers s) (rs : List Request) :
    answers rs s = rs.flatMap fun r ↦ (answer r s).1.encode := by
  have hfrom (before : List Request) :
      answers rs (afterAll before s) = rs.flatMap fun r ↦ (answer r s).1.encode := by
    induction rs generalizing before with
    | nil => rfl
    | cons r rs ih => rw [answers, ← afterAll_concat, ih, h before r, List.flatMap_cons]
  exact hfrom []

namespace Server

/-- Takes all that a compiler writes, and gives what is written back. -/
def finish (p : Server ρ) (bs : Bytes) : Bytes × Server ρ :=
  ((p.take bs).1 ++ (p.take bs).2.takeEnd.1, (p.take bs).2.takeEnd.2)

theorem serve_eq_finish (s : ρ) (bs : Bytes) :
    serve s bs = (((start s).finish bs).2.result, ((start s).finish bs).1) :=
  rfl

section Finish

variable (s : ρ) (n : Nat)

/-- A line is answered, or settles what the parent is at. -/
theorem takeLine_cases (before line : Bytes) :
    (∃ r, Request.ofLine? line = some r ∧
      (⟨s, .requests before, n⟩ : Server ρ).takeLine line =
        ((answer r s).1.encode, ⟨(answer r s).2, .requests [], n + 1⟩)) ∨
    (Request.ofLine? line = none ∧
      (⟨s, .requests before, n⟩ : Server ρ).takeLine line = ([], ⟨s, .ofLines [line], n⟩)) := by
  rw [takeLine]
  split
  · next hmarker => exact .inr ⟨ofLine?_of_isOutputMarker hmarker, by simp [Phase.ofLines, hmarker]⟩
  · next hmarker =>
    split
    · next hline => exact .inr ⟨hline, by simp [Phase.ofLines, hmarker]⟩
    · next r hline => exact .inl ⟨r, hline, rfl⟩

/-- A line with a line feed behind it is taken as a whole. -/
theorem finish_line {line : Bytes} (h : lineFeed ∉ line) (rest : Bytes) :
    let taken := (⟨s, .requests line.reverse, n⟩ : Server ρ).takeLine (line ++ [lineFeed])
    (⟨s, .requests [], n⟩ : Server ρ).finish (line ++ lineFeed :: rest) =
      (taken.1 ++ (taken.2.finish rest).1, (taken.2.finish rest).2) := by
  intro taken
  have hbyte : (⟨s, .requests line.reverse, n⟩ : Server ρ).takeByte lineFeed = taken := by
    rw [takeByte]
    dsimp only
    rw [if_pos rfl, List.reverse_cons, List.reverse_reverse]
  rw [finish, take_append, take_within s n h, List.append_nil, take_cons, hbyte, finish]
  simp

/-- A line that the end cuts short is taken as a whole. -/
theorem finish_last {line : Bytes} (h : lineFeed ∉ line) (hne : line ≠ []) :
    (⟨s, .requests [], n⟩ : Server ρ).finish line =
      (⟨s, .requests line.reverse, n⟩ : Server ρ).takeLine line := by
  rw [finish, take_within s n h, List.append_nil]
  obtain ⟨b, reversed, hreversed⟩ : ∃ b reversed, line.reverse = b :: reversed :=
    List.exists_cons_of_ne_nil (by simpa using hne)
  have hline : line = (b :: reversed).reverse := by rw [← hreversed, List.reverse_reverse]
  rw [hreversed, hline]
  rfl

/-- Behind a line that is no request, nothing is answered. -/
theorem finish_ofLines (line rest : Bytes) :
    (⟨s, .ofLines [line], n⟩ : Server ρ).finish rest = ([], ⟨s, .ofLines [line, rest], n⟩) := by
  rw [Phase.ofLines, Phase.ofLines]
  split
  · rw [finish, take_output]
    simp [takeEnd]
  · have hfailed (fault : ServeFault) (bs : Bytes) :
        (⟨s, .failed fault, n⟩ : Server ρ).take bs = ([], ⟨s, .failed fault, n⟩) := by
      induction bs with
      | nil => rfl
      | cons b bs ih => rw [take_cons, takeByte, ih]; rfl
    rw [finish, hfailed]
    rfl

/-- What a parent comes to with all that a compiler writes. -/
theorem finish_eq (bs : Bytes) :
    (⟨s, .requests [], n⟩ : Server ρ).finish bs =
      (answers (requestsOf bs) s, ⟨afterAll (requestsOf bs) s, .ofLines (otherLines bs),
        n + (requestLines bs).length⟩) := by
  induction bs using lines_induction generalizing s n with
  | nil => rfl
  | last line hne hline =>
      have hcut : cutLines line = line :: cutLines [] := cutLines_of_notMem hline hne
      rw [finish_last s n hline hne]
      rcases takeLine_cases s n line.reverse line with ⟨r, hr, htake⟩ | ⟨hr, htake⟩
      · obtain ⟨hrequests, hlength, hothers⟩ := lines_of_request hcut hr
        rw [htake, hrequests, hlength, hothers]
        simp [answers, afterAll, requestsOf, requestLines, otherLines, Phase.ofLines]
      · obtain ⟨hrequests, hlines, hothers⟩ := lines_of_other hcut hr
        rw [htake, hrequests, hlines, hothers]
        rfl
  | more line rest hline ih =>
      have hcut := cutLines_append_lineFeed hline rest
      rw [finish_line s n hline]
      rcases takeLine_cases s n line.reverse (line ++ [lineFeed]) with ⟨r, hr, htake⟩ | ⟨hr, htake⟩
      · obtain ⟨hrequests, hlength, hothers⟩ := lines_of_request hcut hr
        rw [htake, hrequests, hlength, hothers]
        dsimp only
        rw [ih, answers, Nat.add_assoc, Nat.add_comm 1]
        rfl
      · obtain ⟨hrequests, hlines, hothers⟩ := lines_of_other hcut hr
        rw [htake, hrequests, hlines, hothers]
        dsimp only
        rw [finish_ofLines]
        simp [answers, Phase.ofLines]

end Finish

end Server

/-! ## What serving comes to -/

/-- What serving comes to when so many requests have been answered and these lines, the first of
which is no request, are left. -/
inductive ServeOutcome (answered : Nat) : List Bytes → Except ServeFault Served → Prop where
  | ended : ServeOutcome answered [] (.ok ⟨none, answered⟩)
  | output {marker : Bytes} {more : List Bytes} {output : Bytes} : isOutputMarker marker = true →
      Frame .contents more.flatten (.contents output) →
      ServeOutcome answered (marker :: more) (.ok ⟨some output, answered⟩)
  | badOutput {marker : Bytes} {more : List Bytes} {fault : ServeFault} :
      isOutputMarker marker = true → (∀ output, ¬ Frame .contents more.flatten (.contents output)) →
      (∀ line, fault ≠ .strayLine line) → ServeOutcome answered (marker :: more) (.error fault)
  | strayLine {line : Bytes} (more : List Bytes) : isOutputMarker line = false →
      ServeOutcome answered (line :: more) (.error (.strayLine line))

namespace ServeOutcome

variable {n : Nat} {lines : List Bytes} {result : Except ServeFault Served}

theorem requests_eq (h : ServeOutcome n lines result) {served : Served}
    (hok : result = .ok served) : served.requests = n := by
  subst hok
  cases h with
  | ended => rfl
  | output _ _ => rfl

theorem ok_none_iff (h : ServeOutcome n lines result) :
    (∃ served, result = .ok served ∧ served.output = none) ↔ lines = [] := by
  cases h with
  | ended => simp
  | output _ _ => simp
  | badOutput _ _ _ => simp
  | strayLine _ _ => simp

theorem ok_some_iff (h : ServeOutcome n lines result) (output : Bytes) :
    (∃ served, result = .ok served ∧ served.output = some output) ↔
      ∃ marker more, lines = marker :: more ∧ isOutputMarker marker = true ∧
        Frame .contents more.flatten (.contents output) := by
  constructor
  · rintro ⟨served, rfl, houtput⟩
    cases h with
    | ended => cases houtput
    | output hmarker hframe =>
        obtain rfl := Option.some.inj houtput
        exact ⟨_, _, rfl, hmarker, hframe⟩
  · rintro ⟨marker, more, rfl, hmarker, hframe⟩
    cases h with
    | output _ hframe' =>
        have hsame := (Server.outputOf_eq_ok_iff.mpr hframe').symm.trans
          (Server.outputOf_eq_ok_iff.mpr hframe)
        exact ⟨_, rfl, congrArg some (Except.ok.inj hsame)⟩
    | badOutput _ hnone _ => exact absurd hframe (hnone output)
    | strayLine _ hstray =>
        rw [hmarker] at hstray
        cases hstray

/-- Serving fails where it comes to nothing else. -/
theorem error_iff (h : ServeOutcome n lines result) :
    (∃ fault, result = .error fault) ↔
      lines ≠ [] ∧ ∀ marker more output, lines = marker :: more → isOutputMarker marker = true →
        ¬ Frame .contents more.flatten (.contents output) := by
  have hsplit : (∃ fault, result = .error fault) ↔ ∀ served, result ≠ .ok served := by
    cases result <;> simp
  rw [hsplit, ne_eq, ← h.ok_none_iff]
  constructor
  · intro hnot
    refine ⟨fun ⟨served, hok, _⟩ ↦ hnot served hok, ?_⟩
    intro marker more output hlines hmarker hframe
    obtain ⟨served, hok, -⟩ := (h.ok_some_iff output).mpr ⟨marker, more, hlines, hmarker, hframe⟩
    exact hnot served hok
  · rintro ⟨hnone, hsome⟩ served hok
    cases houtput : served.output with
    | none => exact hnone ⟨served, hok, houtput⟩
    | some output =>
        obtain ⟨marker, more, hlines, hmarker, hframe⟩ :=
          (h.ok_some_iff output).mp ⟨served, hok, houtput⟩
        exact hsome marker more output hlines hmarker hframe

theorem strayLine_iff (h : ServeOutcome n lines result) (line : Bytes) :
    result = .error (.strayLine line) ↔
      ∃ more, lines = line :: more ∧ isOutputMarker line = false := by
  constructor
  · rintro rfl
    cases h with
    | badOutput _ _ hfault => exact absurd rfl (hfault line)
    | strayLine more hstray => exact ⟨more, rfl, hstray⟩
  · rintro ⟨more, rfl, hstray⟩
    cases h with
    | output hmarker _ =>
        rw [hmarker] at hstray
        cases hstray
    | badOutput hmarker _ _ =>
        rw [hmarker] at hstray
        cases hstray
    | strayLine _ _ => rfl

end ServeOutcome

namespace Server

theorem outputOf_ne_strayLine {frame : Bytes} (line : Bytes) :
    outputOf frame ≠ .error (.strayLine line) := by
  intro h
  rw [outputOf] at h
  split at h
  · cases h
  · cases h
  · split at h <;> cases h

theorem serveOutcome {σ : Type} (s : σ) (n : Nat) (lines : List Bytes) :
    ServeOutcome n lines (⟨s, .ofLines lines, n⟩ : Server σ).result := by
  cases lines with
  | nil => exact .ended
  | cons line more =>
      rw [Phase.ofLines]
      split
      · next hmarker =>
        have hresult : (⟨s, .output more.flatten.reverse, n⟩ : Server σ).result =
            (outputOf more.flatten).map fun body ↦ ⟨some body, n⟩ := by
          rw [result]
          dsimp only
          rw [List.reverse_reverse]
        rw [hresult]
        cases hout : outputOf more.flatten with
        | ok output => exact .output hmarker (outputOf_eq_ok_iff.mp hout)
        | error fault =>
            refine .badOutput hmarker (fun output hframe ↦ ?_) fun line hfault ↦ ?_
            · rw [outputOf_eq_ok_iff.mpr hframe] at hout
              cases hout
            · exact outputOf_ne_strayLine line (hfault ▸ hout)
      · next hmarker => exact .strayLine more (by simpa using hmarker)

end Server

theorem serve_outcome (s : ρ) (bs : Bytes) :
    ServeOutcome (requestLines bs).length (otherLines bs) (serve s bs).1 := by
  rw [Server.serve_eq_finish, Server.start, Server.finish_eq, Nat.zero_add]
  exact Server.serveOutcome _ _ _

theorem forall_isRequest (bs : Bytes) : ∀ line ∈ requestLines bs, isRequest line = true :=
  fun _ hline ↦ List.all_eq_true.mp List.all_takeWhile _ hline

theorem cutLines_eq (bs : Bytes) : cutLines bs = requestLines bs ++ otherLines bs := by
  rw [requestLines, otherLines, List.takeWhile_append_dropWhile]

/-- Of requests in lines with line feeds at their ends and the line of the marker behind them, all
and no more are made, whatever comes then. -/
theorem requestLines_of_marker {lines : List Bytes} (hended : ∀ line ∈ lines, IsEnded line)
    (hrequests : ∀ line ∈ lines, isRequest line = true) (behind : Bytes) :
    requestLines (lines.flatten ++ (outputTag ++ lineFeed :: behind)) = lines ∧
      otherLines (lines.flatten ++ (outputTag ++ lineFeed :: behind)) =
        (outputTag ++ [lineFeed]) :: cutLines behind := by
  have hmarker : isRequest (outputTag ++ [lineFeed]) = false := by
    rw [isRequest, ofLine?_of_isOutputMarker isOutputMarker_outputTag]
    rfl
  rw [requestLines, otherLines, cutLines_flatten_append hended,
    cutLines_append_lineFeed lineFeed_notMem_outputTag, List.takeWhile_append_of_pos hrequests,
    List.dropWhile_append_of_pos hrequests]
  simp [hmarker]

/-- Serving any bytes, cut into lines.  The requests before the first other line are answered, and
no others: what is behind the marker changes nothing about what is asked and answered, and no line
is both.  If there is no other line then serving comes to an end without output; if the first one is
the marker then what is behind it has to be one frame of contents, which are the output; in all
other cases serving fails. -/
theorem serve_lines {resolver : ρ} (hfixed : FixedAnswers resolver) (bs : Bytes) :
    (serve resolver bs).2 = (requestsOf bs).flatMap (fun r ↦ (answer r resolver).1.encode) ∧
    ((Server.start resolver).finish bs).2.resolver = afterAll (requestsOf bs) resolver ∧
    (∀ served, (serve resolver bs).1 = .ok served →
      served.requests = (requestLines bs).length) ∧
    ((∃ served, (serve resolver bs).1 = .ok served ∧ served.output = none) ↔
      otherLines bs = []) ∧
    (∀ output, (∃ served, (serve resolver bs).1 = .ok served ∧ served.output = some output) ↔
      ∃ marker more, otherLines bs = marker :: more ∧ isOutputMarker marker = true ∧
        Frame .contents more.flatten (.contents output)) ∧
    ((∃ fault, (serve resolver bs).1 = .error fault) ↔
      otherLines bs ≠ [] ∧ ∀ marker more output, otherLines bs = marker :: more →
        isOutputMarker marker = true → ¬ Frame .contents more.flatten (.contents output)) ∧
    (∀ line, (serve resolver bs).1 = .error (.strayLine line) ↔
      ∃ more, otherLines bs = line :: more ∧ isOutputMarker line = false) ∧
    (∀ more, otherLines bs = (outputTag ++ [lineFeed]) :: more → ∀ behind,
      let changed := (requestLines bs).flatten ++ (outputTag ++ lineFeed :: behind)
      requestsOf changed = requestsOf bs ∧ (serve resolver changed).2 = (serve resolver bs).2) ∧
    ∀ line, isOutputMarker line = true → Request.ofLine? line = none := by
  have hwritten (bs : Bytes) : (serve resolver bs).2 =
      (requestsOf bs).flatMap fun r ↦ (answer r resolver).1.encode := by
    rw [Server.serve_eq_finish, Server.start, Server.finish_eq]
    exact answers_of_fixed hfixed _
  have houtcome := serve_outcome resolver bs
  refine ⟨hwritten bs, ?_, fun served ↦ houtcome.requests_eq, houtcome.ok_none_iff,
    houtcome.ok_some_iff, houtcome.error_iff, houtcome.strayLine_iff, ?_,
    fun line ↦ ofLine?_of_isOutputMarker⟩
  · rw [Server.start, Server.finish_eq]
  · intro more hmore behind
    have hrequests : requestsOf ((requestLines bs).flatten ++ (outputTag ++ lineFeed :: behind)) =
        requestsOf bs := by
      have hended := isEnded_of_cutLines (hmore ▸ cutLines_eq bs)
      rw [requestsOf, (requestLines_of_marker hended (forall_isRequest bs) behind).1, requestsOf]
    exact ⟨hrequests, by rw [hwritten, hwritten, hrequests]⟩

/-- A request, and output that is the line of a request. -/
theorem serve_lines_requestAsOutput :
    let files : Table Bytes := .ofList [("a", [0x0a])]
    let bs := bytesOf "SRCBRIDGE_READFILEa\nSRCBRIDGE_OUTPUT\n20 SRCBRIDGE_READFILEa\n"
    FixedAnswers files ∧ (serve files bs).2 = bytesOf "1 \n" ∧
      ∃ served, (serve files bs).1 = .ok served ∧
        served.output = some (bytesOf "SRCBRIDGE_READFILEa\n") ∧ served.requests = 1 := by
  intro files bs
  have hother : otherLines bs =
      [bytesOf "SRCBRIDGE_OUTPUT\n", bytesOf "20 SRCBRIDGE_READFILEa\n"] := by decide
  have hframe : Frame .contents (bytesOf "20 SRCBRIDGE_READFILEa\n")
      (.contents (bytesOf "SRCBRIDGE_READFILEa\n")) :=
    frame_encode (r := .contents (bytesOf "SRCBRIDGE_READFILEa\n"))
      (show (bytesOf "SRCBRIDGE_READFILEa\n").length < Nat.pow 2 63 by decide)
  obtain ⟨hwritten, -, hcount, -, hsome, -⟩ := serve_lines (fixedAnswers_table files) bs
  obtain ⟨served, hok, houtput⟩ :=
    (hsome (bytesOf "SRCBRIDGE_READFILEa\n")).mpr ⟨_, _, hother, by decide, hframe⟩
  refine ⟨fixedAnswers_table files, ?_, served, hok, houtput, ?_⟩
  · rw [hwritten]
    decide
  · rw [hcount served hok]
    decide

end PipedCompiler.Parent
