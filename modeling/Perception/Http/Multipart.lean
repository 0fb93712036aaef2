import Perception.Http.HttpClient
import Perception.Lib.Multipart

/-!
# Multipart requests

A part has the parameter `filename` in its header only when the name of the file is empty, and
the line break after this parameter ends the header. The data of a part have no line break
behind them, so that the next boundary is not a delimiter.
-/
namespace Perception.Http

set_option autoImplicit false

open Perception.Lib
open Perception.Lib.Cut

structure TMultiPartData where
  strName : List Char
  strFileName : List Char
  strContentType : List Char
  strEncType : List Char
  strData : List Char

namespace CHttpClient

def BuildMultiPartBody (tReqData : TMultiPartData) : List Char :=
  "--".toList ++ strBoundary ++ CRLF ++
    "Content-Disposition: form-data; name=".toList ++ tReqData.strName ++
    (if tReqData.strFileName = [] then "; filename=".toList ++ tReqData.strFileName ++ CRLF else []) ++ CRLF ++
    (if tReqData.strContentType ≠ [] then "Content-Type: ".toList ++ tReqData.strContentType ++ CRLF else []) ++
    (if tReqData.strEncType ≠ [] then "Content-Transfer-Encoding: ".toList ++ tReqData.strEncType ++ CRLF else []) ++
    CRLF ++ tReqData.strData

def BuildMultiPartTail : List Char := "--".toList ++ strBoundary ++ "--".toList ++ CRLF

def streamBody (lstReqData : List TMultiPartData) : List Char :=
  lstReqData.flatMap BuildMultiPartBody ++ BuildMultiPartTail

def BuildMultiPartReqPkg (cli : CHttpClient) (strPage : List Char) (lstReqData : List TMultiPartData) : List Char :=
  cli.BuildHeard strPage strMultiPartContentType "POST".toList ++
    "Content-Length: ".toList ++ (toString (streamBody lstReqData).length).toList ++ CRLF ++ CRLF ++
    streamBody lstReqData

def PostMultiPart (cli : CHttpClient) (net : List Char → Net) (strPage : List Char) (lstReqData : List TMultiPartData)
    (status_code : Nat) (strRspData : List Char) : Int × List Char :=
  PostOrGetData (net (cli.BuildMultiPartReqPkg strPage lstReqData)) status_code strRspData

end CHttpClient

open CHttpClient

def optional (s : List Char) : Option (List Char) := if s = [] then none else some s

def TMultiPartData.part (t : TMultiPartData) : Multipart.Part where
  name := t.strName
  filename := optional t.strFileName
  contentType := optional t.strContentType
  encoding := optional t.strEncType
  data := t.strData

/-- The body is behind its length, and has the parts that were given. -/
structure Decodes (cli : CHttpClient) (strPage : List Char) (lstReqData : List TMultiPartData) : Prop where
  length : cli.BuildMultiPartReqPkg strPage lstReqData =
    cli.BuildHeard strPage strMultiPartContentType "POST".toList ++
      "Content-Length: ".toList ++ (toString (streamBody lstReqData).length).toList ++ CRLF ++ CRLF ++
      streamBody lstReqData
  parts : Multipart.parse strBoundary (streamBody lstReqData) = some (lstReqData.map TMultiPartData.part)

/-- What is written behind the name of a part, up to the end of the line. -/
def afterName (t : TMultiPartData) : List Char := if t.strFileName = [] then "; filename=".toList else []

theorem BuildMultiPartBody_eq (t : TMultiPartData) : ∃ w, BuildMultiPartBody t =
    "--".toList ++ strBoundary ++ CRLF ++
      ("Content-Disposition: form-data; name=".toList ++ (t.strName ++ (afterName t ++ (CRLF ++ w)))) := by
  unfold BuildMultiPartBody afterName
  by_cases h : t.strFileName = []
  · rw [if_pos h, if_pos h, h]
    simp only [List.append_assoc, List.nil_append]
    exact ⟨_, rfl⟩
  · rw [if_neg h, if_neg h]
    simp only [List.append_assoc, List.nil_append]
    exact ⟨_, rfl⟩

theorem notMem_afterName (t : TMultiPartData) : '\r' ∉ afterName t := by
  unfold afterName
  split <;> decide

theorem quote_notMem_afterName (t : TMultiPartData) : Multipart.quote ∉ afterName t := by
  unfold afterName
  split <;> decide

/-- A value that is the name of the part is not in quotes. -/
theorem append_of_value {v rest w b : List Char} {t : TMultiPartData} (h : Multipart.value v = some (t.strName, rest))
    (hv : t.strName ++ (afterName t ++ (CRLF ++ w)) = v ++ CRLF ++ b) : v = t.strName ++ rest := by
  cases v with
  | nil =>
    obtain ⟨hname, hrest⟩ := Prod.mk.inj (Option.some.inj h)
    rw [← hname, ← hrest]
    rfl
  | cons c cs =>
    rw [Multipart.value] at h
    split at h
    · next hc =>
      -- The sign in front is a quote, and neither the name nor what is behind it has one.
      have hmem : Multipart.quote ∉ t.strName ++ (afterName t ++ CRLF) := by
        intro hmem
        rcases List.mem_append.mp hmem with hmem | hmem
        · exact notMem_of_cut h hmem
        · rcases List.mem_append.mp hmem with hmem | hmem
          · exact quote_notMem_afterName t hmem
          · exact absurd hmem (by decide)
      have hfirst : (t.strName ++ (afterName t ++ CRLF) ++ w).head? = some Multipart.quote := by
        simp only [List.append_assoc]
        rw [hv, hc]
        rfl
      cases hsplit : t.strName ++ (afterName t ++ CRLF) with
      | nil =>
        have hlen := congrArg List.length hsplit
        simp only [List.length_append, CRLF, List.length_cons, List.length_nil] at hlen
        omega
      | cons d ds =>
        rw [hsplit] at hfirst hmem
        obtain rfl : d = Multipart.quote := Option.some.inj hfirst
        exact absurd List.mem_cons_self hmem
    · obtain ⟨hname, hrest⟩ := Prod.mk.inj (Option.some.inj h)
      rw [← hname, ← hrest, List.takeWhile_append_dropWhile]

/-- What is behind the name on its line. -/
theorem eq_afterName {rest w b : List Char} {t : TMultiPartData} (hle : rest.length ≤ (afterName t).length)
    (h : afterName t ++ (CRLF ++ w) = rest ++ CRLF ++ b) : rest = afterName t := by
  rw [List.append_assoc] at h
  rcases List.append_eq_append_iff.mp h with ⟨v, hv, -⟩ | ⟨v, hv, hrest⟩
  · obtain rfl : v = [] := by
      rw [hv, List.length_append] at hle
      exact List.eq_nil_of_length_eq_zero (by omega)
    rw [hv, List.append_nil]
  · cases v with
    | nil => rw [hv, List.append_nil]
    | cons c v =>
      obtain rfl : '\r' = c := (List.cons.inj hrest).1
      exact absurd (hv ▸ List.mem_append_right _ List.mem_cons_self) (notMem_afterName t)

theorem params_name (fuel : Nat) (v : List Char) :
    Multipart.params (fuel + 1) ("; name=".toList ++ v) =
      (Multipart.value v).bind fun r => (Multipart.params fuel r.2).map fun ps => ("name".toList, r.1) :: ps := by
  have hkey : cut ['='] ((" name=".toList ++ v).dropWhile (· = ' ')) = some ("name".toList, v) := rfl
  have hsplit : "; name=".toList ++ v = ';' :: (" name=".toList ++ v) := rfl
  rw [hsplit, Multipart.params, if_pos rfl, hkey]
  cases hvalue : Multipart.value v with
  | none => simp [hvalue]
  | some r =>
    cases hparams : Multipart.params fuel r.2 <;> simp [hvalue, hparams]

/-- The parameters behind the name. -/
theorem params_afterName (fuel : Nat) (t : TMultiPartData) :
    Multipart.params (fuel + 1) (afterName t) = some (if t.strFileName = [] then [("filename".toList, [])] else []) := by
  unfold afterName
  split
  · have hkey : cut ['='] (" filename=".toList.dropWhile (· = ' ')) = some ("filename".toList, []) := rfl
    have hsplit : "; filename=".toList = ';' :: " filename=".toList := rfl
    rw [hsplit, Multipart.params, if_pos rfl, hkey]
    simp [Multipart.value, Multipart.params]
  · rw [Multipart.params]

/-- A part whose name is read as it was given has an empty file name, or none, whichever it
should not have. -/
theorem filename_of_parsePart {s z w : List Char} {t : TMultiPartData} {p : Multipart.Part}
    (hs : s ++ z = "Content-Disposition: form-data; name=".toList ++ (t.strName ++ (afterName t ++ (CRLF ++ w))))
    (h : Multipart.parsePart s = some p) (hname : p.name = t.strName) :
    p.filename = if t.strFileName = [] then some [] else none := by
  unfold Multipart.parsePart at h
  simp only [Option.bind_eq_bind, Option.bind_eq_some_iff] at h
  obtain ⟨⟨lines, data⟩, hlines, disposition, hfield, rest, hdata, ps, hps, name, hlookup, heq⟩ := h
  obtain rfl := Option.some.inj heq
  obtain ⟨line, s', hcut, hfirst⟩ := Multipart.headerLines_succ hlines
  -- The first line, up to what is behind `name=`.
  have hcut := cut_append hcut z
  obtain ⟨v, rfl, hv⟩ := eq_append_of_cut hcut hs (by decide)
  have hbreak : s ++ z = "Content-Disposition: form-data; name=".toList ++ (t.strName ++ afterName t) ++
      (Multipart.lineBreak ++ w) := by
    rw [hs]
    simp only [List.append_assoc]
    rfl
  have hle := length_le_of_cut hcut hbreak
  obtain ⟨habs, -⟩ | ⟨-, tail, rfl⟩ := hfirst
  · cases habs
  have hdisposition : disposition = "form-data; name=".toList ++ v := by
    have hname : "Content-Disposition: form-data; name=".toList =
        "Content-Disposition".toList ++ ": ".toList ++ "form-data; name=".toList := by decide
    unfold Multipart.fieldOf at hfield
    rw [List.findSome?_cons, hname, List.append_assoc _ _ v, after_append] at hfield
    exact (Option.some.inj hfield).symm
  have hrest : rest = "; name=".toList ++ v := by
    have hname : "form-data; name=".toList = "form-data".toList ++ "; name=".toList := by decide
    rw [hdisposition, hname, List.append_assoc, after_append] at hdata
    exact (Option.some.inj hdata).symm
  -- Its parameters.
  have hfuel : rest.length = (5 + v.length) + 1 + 1 := by
    rw [hrest, List.length_append]
    change 7 + v.length = _
    omega
  rw [hfuel, hrest, params_name] at hps
  obtain ⟨⟨u, r⟩, hvalue, hps⟩ := Option.bind_eq_some_iff.mp hps
  obtain ⟨ps', hps', rfl⟩ := Option.map_eq_some_iff.mp hps
  obtain rfl : u = name := Option.some.inj hlookup
  obtain rfl : u = t.strName := hname
  have hsplit := append_of_value hvalue hv
  have hr : r = afterName t := by
    rw [hsplit] at hle
    simp only [List.length_append] at hle
    rw [hsplit, List.append_assoc, List.append_assoc] at hv
    have hbehind : afterName t ++ (CRLF ++ w) = r ++ CRLF ++ (s' ++ z) := by
      rw [List.append_assoc]
      exact List.append_cancel_left hv
    exact eq_afterName (by omega) hbehind
  rw [hr, params_afterName] at hps'
  obtain rfl := Option.some.inj hps'
  change List.lookup "filename".toList (("name".toList, t.strName) :: _) = _
  split
  · rfl
  · rfl

theorem not_decodes_cons (cli : CHttpClient) (strPage : List Char) (t : TMultiPartData) (ts : List TMultiPartData) :
    ¬Decodes cli strPage (t :: ts) := by
  intro h
  have hparse := h.parts
  obtain ⟨w, hw⟩ := BuildMultiPartBody_eq t
  have hbody : Multipart.lineBreak ++ streamBody (t :: ts) = Multipart.delimiter strBoundary ++ (Multipart.lineBreak ++
      ("Content-Disposition: form-data; name=".toList ++
        (t.strName ++ (afterName t ++ (CRLF ++ (w ++ streamBody ts)))))) := by
    rw [streamBody, List.flatMap_cons, hw, Multipart.delimiter]
    simp only [List.append_assoc]
    rfl
  have hne : Multipart.delimiter strBoundary ≠ [] := by decide
  have hfirst := cut_append_self hne
  unfold Multipart.parse at hparse
  rw [hbody, hfirst, Option.bind_eq_bind, Option.bind_some] at hparse
  dsimp only at hparse
  rw [Multipart.parts] at hparse
  have hopen (s : List Char) : after "--".toList (Multipart.lineBreak ++ s) = none := rfl
  simp only [hopen, after_append, Option.bind_eq_bind, Option.bind_some] at hparse
  obtain ⟨⟨section_, z⟩, hcut, hparse⟩ := Option.bind_eq_some_iff.mp hparse
  obtain ⟨p, hp, hparse⟩ := Option.bind_eq_some_iff.mp hparse
  obtain ⟨ps, -, hps⟩ := Option.bind_eq_some_iff.mp hparse
  rw [List.map_cons] at hps
  obtain ⟨rfl, -⟩ := List.cons.inj (Option.some.inj hps)
  have hsection := cut_eq_some hcut
  rw [List.append_assoc] at hsection
  have hfilename := filename_of_parsePart hsection.symm hp rfl
  unfold TMultiPartData.part optional at hfilename
  by_cases hfile : t.strFileName = []
  · rw [if_pos hfile, if_pos hfile] at hfilename
    cases hfilename
  · rw [if_neg hfile, if_neg hfile] at hfilename
    cases hfilename

/-- **Multipart requests.** A server reads the parts of a request only where there are none. -/
theorem decodes_iff (cli : CHttpClient) (strPage : List Char) (lstReqData : List TMultiPartData) :
    Decodes cli strPage lstReqData ↔ lstReqData = [] := by
  constructor
  · intro h
    cases lstReqData with
    | nil => rfl
    | cons t ts => exact absurd h (not_decodes_cons cli strPage t ts)
  · rintro rfl
    exact ⟨rfl, by decide⟩

/-- One part without a file. -/
theorem not_decodes_field : ¬∀ (cli : CHttpClient) (strPage : List Char) (lstReqData : List TMultiPartData),
    (∀ t ∈ lstReqData, ¬Multipart.delimiter strBoundary <:+: t.strData) → Decodes cli strPage lstReqData := by
  intro h
  have hdata : ∀ t ∈ [TMultiPartData.mk ['a'] [] [] [] ['x']], ¬Multipart.delimiter strBoundary <:+: t.strData := by
    decide
  exact not_decodes_cons ⟨[], [], []⟩ [] _ [] (h ⟨[], [], []⟩ [] _ hdata)

end Perception.Http
