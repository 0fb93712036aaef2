import Perception.Http.HttpClient

/-!
# A response in several reads

Only the status line is waited for. The loop over the header takes what is in the buffer by
then, and what comes later is taken as the body.
-/
namespace Perception.Http

set_option autoImplicit false

open Perception.Lib

/-- A response with the status 200. -/
structure Response where
  reason : List Char
  headers : List (List Char)
  body : List Char
  reason_ok : '\r' ∉ reason ∧ '\n' ∉ reason
  headers_ok : ∀ h ∈ headers, h ≠ [] ∧ '\r' ∉ h ∧ '\n' ∉ h

namespace Response

def statusLine (r : Response) : List Char := "HTTP/1.1 200 ".toList ++ r.reason ++ CRLF

/-- The header lines and the empty line. -/
def headerText : List (List Char) → List Char
  | [] => CRLF
  | h :: hs => h ++ CRLF ++ headerText hs

def head (r : Response) : List Char := r.statusLine ++ headerText r.headers

def text (r : Response) : List Char := r.head ++ r.body

end Response

/-- What has arrived with the first read that brings the bytes to `n`. -/
def arrived (n : Nat) (buf : List Char) : List (List Char) → List Char
  | [] => buf
  | c :: reads => if n ≤ buf.length then buf else arrived n (buf ++ c) reads

/-- The first line break is where the first line ends. -/
theorem CRLF_infix_iff {line rest p : List Char} (hline : '\n' ∉ line) (hp : p <+: line ++ CRLF ++ rest) :
    CRLF <:+: p ↔ (line ++ CRLF).length ≤ p.length := by
  constructor
  · intro h
    by_contra hlt
    have hle : p.length ≤ (line ++ ['\r']).length := by
      rw [CRLF, List.length_append] at hlt
      rw [List.length_append]
      simp only [List.length_cons, List.length_nil] at hlt ⊢
      omega
    have hpre : p <+: line ++ ['\r'] := by
      refine List.prefix_of_prefix_length_le hp ⟨'\n' :: rest, ?_⟩ hle
      simp [CRLF]
    have hmem : '\n' ∈ line ++ ['\r'] := hpre.subset (h.subset (by decide))
    rcases List.mem_append.mp hmem with hmem | hmem
    · exact hline hmem
    · exact absurd hmem (by decide)
  · intro hle
    have hpre : line ++ CRLF <+: p := List.prefix_of_prefix_length_le (List.prefix_append _ _) hp hle
    exact (List.suffix_append line CRLF).isInfix.trans hpre.isInfix

theorem read_until_CRLF {line rest : List Char} (hline : '\n' ∉ line) (reads : List (List Char)) (buf : List Char)
    (htext : buf ++ reads.flatten = line ++ CRLF ++ rest) :
    ∃ reads', read_until CRLF buf reads = some (arrived (line ++ CRLF).length buf reads, reads') ∧
      arrived (line ++ CRLF).length buf reads ++ reads'.flatten = line ++ CRLF ++ rest ∧
      (line ++ CRLF).length ≤ (arrived (line ++ CRLF).length buf reads).length := by
  have hiff : CRLF <:+: buf ↔ (line ++ CRLF).length ≤ buf.length :=
    CRLF_infix_iff hline ⟨reads.flatten, htext⟩
  induction reads generalizing buf with
  | nil =>
    have hle : (line ++ CRLF).length ≤ buf.length := by
      rw [List.flatten_nil, List.append_nil] at htext
      rw [htext]
      exact (List.prefix_append (line ++ CRLF) rest).length_le
    refine ⟨[], ?_, htext, hle⟩
    rw [read_until, if_pos (hiff.mpr hle), arrived]
  | cons c reads ih =>
    rw [read_until, arrived]
    by_cases hle : (line ++ CRLF).length ≤ buf.length
    · rw [if_pos (hiff.mpr hle), if_pos hle]
      exact ⟨c :: reads, rfl, htext, hle⟩
    · rw [if_neg (mt hiff.mp hle), if_neg hle]
      have htext' : buf ++ c ++ reads.flatten = line ++ CRLF ++ rest := by
        rw [List.append_assoc, ← List.flatten_cons]
        exact htext
      exact ih (buf ++ c) htext' (CRLF_infix_iff hline ⟨reads.flatten, htext'⟩)

/-- The words of the status line. -/
theorem readWord_status (buf : List Char) :
    IStream.readWord ⟨"HTTP/1.1 200 ".toList ++ buf, true⟩ [] = ("HTTP/1.1".toList, ⟨" 200 ".toList ++ buf, true⟩) := by
  rfl

theorem readUnsigned_status (buf : List Char) (status_code : Nat) :
    IStream.readUnsigned ⟨" 200 ".toList ++ buf, true⟩ status_code = (200, ⟨' ' :: buf, true⟩) := by
  rfl

theorem getline_status {reason : List Char} (h : '\n' ∉ reason) (buf : List Char) :
    IStream.getline '\n' ⟨' ' :: (reason ++ CRLF ++ buf), true⟩ = (true, ' ' :: reason ++ ['\r'], ⟨buf, true⟩) := by
  have hmem : '\n' ∉ ' ' :: reason ++ ['\r'] := by
    simp only [List.cons_append, List.mem_cons, List.mem_append]
    rintro (heq | hmem | heq)
    · exact absurd heq (by decide)
    · exact h hmem
    · exact absurd heq (by decide)
  have hbuf : ' ' :: (reason ++ CRLF ++ buf) = ' ' :: reason ++ ['\r'] ++ '\n' :: buf := by simp [CRLF]
  rw [hbuf]
  exact IStream.getline_append hmem

theorem readHeaders_of_line {st st' : IStream} {header : List Char} (h : st.getline '\n' = (true, header, st'))
    (hne : header ≠ ['\r']) : readHeaders st = readHeaders st' := by
  rw [readHeaders, h]
  simp only [ne_eq, hne, not_false_eq_true, and_self, dite_true]

theorem readHeaders_of_empty {st st' : IStream} (h : st.getline '\n' = (true, ['\r'], st')) :
    readHeaders st = st' := by
  rw [readHeaders, h]
  simp only [ne_eq, not_true_eq_false, and_false, dite_false]

theorem readHeaders_of_end {st st' : IStream} {header : List Char} (h : st.getline '\n' = (false, header, st')) :
    readHeaders st = st' := by
  rw [readHeaders, h]
  simp only [Bool.false_eq_true, false_and, dite_false]

/-- A buffer without the end of a line is taken whole. -/
theorem readHeaders_of_not_mem {buf : List Char} (h : '\n' ∉ buf) : (readHeaders ⟨buf, true⟩).buf = [] := by
  have hline := IStream.getline_of_not_mem h
  by_cases hne : buf = []
  · subst hne
    rw [readHeaders_of_end hline]
  · have hread : (!buf.isEmpty) = true := by
      rw [Bool.not_eq_true', List.isEmpty_eq_false_iff]
      exact hne
    rw [hread] at hline
    by_cases hcr : buf = ['\r']
    · subst hcr
      rw [readHeaders_of_empty hline]
    · rw [readHeaders_of_line hline hcr, readHeaders_of_end (IStream.getline_of_not_good rfl)]

/-- What a header line is read as. -/
theorem header_line {h : List Char} (hok : h ≠ [] ∧ '\r' ∉ h ∧ '\n' ∉ h) :
    '\n' ∉ h ++ ['\r'] ∧ h ++ ['\r'] ≠ ['\r'] := by
  constructor
  · intro hmem
    rcases List.mem_append.mp hmem with hmem | hmem
    · exact hok.2.2 hmem
    · exact absurd hmem (by decide)
  · intro heq
    exact hok.1 (List.append_cancel_right (heq.trans (List.nil_append _).symm))

/-- The loop over a whole header leaves what is behind it. -/
theorem readHeaders_whole {hs : List (List Char)} (hok : ∀ h ∈ hs, h ≠ [] ∧ '\r' ∉ h ∧ '\n' ∉ h) (buf : List Char) :
    (readHeaders ⟨Response.headerText hs ++ buf, true⟩).buf = buf := by
  induction hs with
  | nil =>
    have hline : IStream.getline '\n' ⟨['\r'] ++ '\n' :: buf, true⟩ = (true, ['\r'], ⟨buf, true⟩) :=
      IStream.getline_append (by decide)
    exact congrArg IStream.buf (readHeaders_of_empty hline)
  | cons h hs ih =>
    obtain ⟨hmem, hne⟩ := header_line (hok h List.mem_cons_self)
    have htext : Response.headerText (h :: hs) ++ buf = h ++ ['\r'] ++ '\n' :: (Response.headerText hs ++ buf) := by
      simp [Response.headerText, CRLF]
    rw [htext, readHeaders_of_line (IStream.getline_append hmem) hne]
    exact ih fun h' hh' => hok h' (List.mem_cons_of_mem h hh')

/-- The loop over a part of the header leaves nothing. -/
theorem readHeaders_part {hs : List (List Char)} (hok : ∀ h ∈ hs, h ≠ [] ∧ '\r' ∉ h ∧ '\n' ∉ h) {buf : List Char}
    (hpre : buf <+: Response.headerText hs) (hlt : buf.length < (Response.headerText hs).length) :
    (readHeaders ⟨buf, true⟩).buf = [] := by
  induction hs generalizing buf with
  | nil =>
    apply readHeaders_of_not_mem
    intro hmem
    have hcr : buf <+: ['\r'] := by
      refine List.prefix_of_prefix_length_le hpre ⟨['\n'], rfl⟩ ?_
      exact Nat.le_of_lt_succ hlt
    exact absurd (hcr.subset hmem) (by decide)
  | cons h hs ih =>
    obtain ⟨hmem, hne⟩ := header_line (hok h List.mem_cons_self)
    have htext : Response.headerText (h :: hs) = h ++ ['\r'] ++ '\n' :: Response.headerText hs := by
      simp [Response.headerText, CRLF]
    rw [htext] at hpre hlt
    by_cases hle : buf.length ≤ (h ++ ['\r']).length
    · have hline : buf <+: h ++ ['\r'] := List.prefix_of_prefix_length_le hpre (List.prefix_append _ _) hle
      exact readHeaders_of_not_mem fun hin => hmem (hline.subset hin)
    · obtain ⟨c, rest, rfl⟩ : ∃ c rest, buf = h ++ ['\r'] ++ c :: rest := by
        obtain ⟨tail, htail⟩ : h ++ ['\r'] <+: buf :=
          List.prefix_of_prefix_length_le (List.prefix_append _ _) hpre (Nat.le_of_not_le hle)
        cases tail with
        | nil =>
          rw [← htail, List.append_nil] at hle
          exact absurd (Nat.le_refl _) hle
        | cons c rest => exact ⟨c, rest, htail.symm⟩
      have htail : c :: rest <+: '\n' :: Response.headerText hs := (List.prefix_append_right_inj _).mp hpre
      obtain ⟨rfl, hrest⟩ := List.cons_prefix_cons.mp htail
      rw [readHeaders_of_line (IStream.getline_append hmem) hne]
      refine ih (fun h' hh' => hok h' (List.mem_cons_of_mem h hh')) hrest ?_
      simp only [List.length_append, List.length_cons] at hlt
      omega

namespace Response

variable (r : Response)

theorem statusLine_eq : r.statusLine = "HTTP/1.1 200 ".toList ++ r.reason ++ CRLF := rfl

/-- What the client makes of a buffer with the status line and the reads after it. -/
theorem PostOrGetData_of_status {buf : List Char} {reads reads' : List (List Char)} (status_code : Nat)
    (message strRspData : List Char) (h : read_until CRLF [] reads = some (r.statusLine ++ buf, reads')) :
    PostOrGetData (.response reads true message) status_code strRspData =
      (0, if 0 < ((readHeaders ⟨buf, true⟩).buf ++ reads'.flatten).length then
        (readHeaders ⟨buf, true⟩).buf ++ reads'.flatten else strRspData) := by
  have hbuf : r.statusLine ++ buf = "HTTP/1.1 200 ".toList ++ (r.reason ++ CRLF ++ buf) := by
    rw [statusLine_eq, List.append_assoc, List.append_assoc, List.append_assoc]
  have hok : ¬("HTTP/".toList ≠ "HTTP/1.1".toList.take 5 ∧ "OK".toList ≠ ' ' :: r.reason ++ ['\r']) := by
    intro hne
    exact hne.1 rfl
  unfold PostOrGetData
  simp only [h, hbuf, readWord_status, readUnsigned_status, getline_status r.reason_ok.2, if_neg hok, ne_eq,
    not_true_eq_false, if_false, Bool.not_true, Bool.false_eq_true]
  split
  · rfl
  · rfl

theorem newline_not_mem_line : '\n' ∉ "HTTP/1.1 200 ".toList ++ r.reason := by
  intro hmem
  rcases List.mem_append.mp hmem with hmem | hmem
  · exact absurd hmem (by decide)
  · exact r.reason_ok.2 hmem

/-- What has arrived with the status line, and what is still to come. -/
theorem arrived_eq {reads : List (List Char)} (hreads : reads.flatten = r.text) :
    ∃ buf reads', read_until CRLF [] reads = some (r.statusLine ++ buf, reads') ∧
      arrived r.statusLine.length [] reads = r.statusLine ++ buf ∧
      buf ++ reads'.flatten = headerText r.headers ++ r.body := by
  have htext : [] ++ reads.flatten = "HTTP/1.1 200 ".toList ++ r.reason ++ CRLF ++ (headerText r.headers ++ r.body) := by
    rw [List.nil_append, hreads, text, head, statusLine_eq, List.append_assoc _ (headerText _)]
  obtain ⟨reads', hread, hsplit, hle⟩ := read_until_CRLF r.newline_not_mem_line reads [] htext
  rw [← statusLine_eq] at hread hsplit hle
  obtain ⟨buf, hbuf⟩ : r.statusLine <+: arrived r.statusLine.length [] reads :=
    List.prefix_of_prefix_length_le (List.prefix_append _ _) ⟨_, hsplit⟩ hle
  rw [← hbuf] at hread hsplit
  rw [List.append_assoc] at hsplit
  exact ⟨buf, reads', hread, hbuf.symm, List.append_cancel_left hsplit⟩

/-- The response is read as its body exactly when the whole header has arrived with the
status line, and no text is left from before in place of an empty body. -/
theorem PostOrGetData_eq_body_iff (reads : List (List Char)) (hreads : reads.flatten = r.text) (status_code : Nat)
    (message strRspData : List Char) :
    PostOrGetData (.response reads true message) status_code strRspData = (0, r.body) ↔
      r.head.length ≤ (arrived r.statusLine.length [] reads).length ∧ (r.body ≠ [] ∨ strRspData = []) := by
  obtain ⟨buf, reads', hread, harrived, hrest⟩ := r.arrived_eq hreads
  have hhead : (r.statusLine ++ headerText r.headers).length ≤ (r.statusLine ++ buf).length ↔
      (headerText r.headers).length ≤ buf.length := by
    rw [List.length_append, List.length_append, Nat.add_le_add_iff_left]
  rw [r.PostOrGetData_of_status status_code message strRspData hread, harrived, head, hhead]
  by_cases hwhole : (headerText r.headers).length ≤ buf.length
  · obtain ⟨b, rfl⟩ : headerText r.headers <+: buf :=
      List.prefix_of_prefix_length_le (List.prefix_append _ _) ⟨_, hrest⟩ hwhole
    have hbody : b ++ reads'.flatten = r.body := by
      rw [List.append_assoc] at hrest
      exact List.append_cancel_left hrest
    rw [readHeaders_whole r.headers_ok, hbody, and_iff_right hwhole]
    by_cases hne : r.body = []
    · rw [hne]
      simp
    · have hpos : 0 < r.body.length := List.length_pos_iff.mpr hne
      simp [hpos, hne]
  · have hpre : buf <+: headerText r.headers :=
      List.prefix_of_prefix_length_le ⟨_, hrest⟩ (List.prefix_append _ _) (Nat.le_of_not_le hwhole)
    have hlong : r.body.length < reads'.flatten.length := by
      have hlen := congrArg List.length hrest
      rw [List.length_append, List.length_append] at hlen
      omega
    rw [readHeaders_part r.headers_ok hpre (Nat.lt_of_not_le hwhole), List.nil_append,
      if_pos (Nat.zero_lt_of_lt hlong)]
    refine iff_of_false (fun heq => ?_) fun h => hwhole h.1
    have hlen := congrArg (fun p => p.2.length) heq
    exact Nat.ne_of_gt hlong hlen

def hello : Response where
  reason := "OK".toList
  headers := ["Connection: close".toList]
  body := "hi".toList
  reason_ok := by decide
  headers_ok := by decide

/-- The status line is cut, and the header comes with the rest of it and with a part of the body. -/
def helloReads : List (List Char) := [hello.text.take 9, (hello.text.drop 9).take 30, hello.text.drop 39]

theorem PostOrGetData_eq_body_hello :
    PostOrGetData (.response helloReads true []) 0 "before".toList = (0, hello.body) := by
  refine (hello.PostOrGetData_eq_body_iff helloReads ?_ 0 [] "before".toList).mpr ⟨?_, Or.inl ?_⟩
  · decide
  · decide
  · decide

/-- The status line arrives first, and the header is taken for the body. -/
theorem not_PostOrGetData_eq_body_hello :
    [hello.statusLine, headerText hello.headers ++ hello.body].flatten = hello.text ∧
      PostOrGetData (.response [hello.statusLine, headerText hello.headers ++ hello.body] true []) 0 [] ≠
        (0, hello.body) := by
  refine ⟨by decide, fun h => ?_⟩
  have hread : read_until CRLF [] [hello.statusLine, headerText hello.headers ++ hello.body] =
      some (hello.statusLine ++ [], [headerText hello.headers ++ hello.body]) := by
    decide
  rw [hello.PostOrGetData_of_status 0 [] [] hread, readHeaders_of_not_mem List.not_mem_nil] at h
  exact absurd h (by decide)

end Response

end Perception.Http
