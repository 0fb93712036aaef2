import Perception.Lib.Cut

/-!
# Multipart bodies

The grammar of `multipart/form-data`: a delimiter is a line break, two hyphens and the boundary,
and the first one may do without the line break. Between two delimiters is a part, which is
header lines, an empty line and the data. After the last delimiter there are two hyphens.
-/
namespace Perception.Lib.Multipart

set_option autoImplicit false

open Perception.Lib.Cut

def lineBreak : List Char := ['\r', '\n']

def quote : Char := '\x22'

/-- The value of a parameter, in quotes or up to the next parameter. -/
def value : List Char → Option (List Char × List Char)
  | [] => some ([], [])
  | c :: cs =>
    if c = quote then cut [quote] cs
    else some ((c :: cs).takeWhile (· ≠ ';'), (c :: cs).dropWhile (· ≠ ';'))

/-- The parameters of a header. -/
def params : Nat → List Char → Option (List (List Char × List Char))
  | _, [] => some []
  | 0, _ :: _ => none
  | fuel + 1, c :: cs =>
    if c = ';' then do
      let (key, s) ← cut ['='] (cs.dropWhile (· = ' '))
      let (v, s) ← value s
      let ps ← params fuel s
      some ((key, v) :: ps)
    else none

/-- The lines of a header up to the empty line, and what is behind it. -/
def headerLines : Nat → List Char → Option (List (List Char) × List Char)
  | 0, _ => none
  | fuel + 1, s => do
    let (line, s) ← cut lineBreak s
    if line = [] then some ([], s)
    else do
      let (lines, data) ← headerLines fuel s
      some (line :: lines, data)

/-- The value of a header field. -/
def fieldOf (name : List Char) (lines : List (List Char)) : Option (List Char) :=
  lines.findSome? (after (name ++ ": ".toList))

structure Part where
  name : List Char
  filename : Option (List Char)
  contentType : Option (List Char)
  encoding : Option (List Char)
  data : List Char
deriving DecidableEq

def parsePart (s : List Char) : Option Part := do
  let (lines, data) ← headerLines (s.length + 1) s
  let disposition ← fieldOf "Content-Disposition".toList lines
  let s ← after "form-data".toList disposition
  let ps ← params s.length s
  let name ← ps.lookup "name".toList
  some
    { name := name
      filename := ps.lookup "filename".toList
      contentType := fieldOf "Content-Type".toList lines
      encoding := fieldOf "Content-Transfer-Encoding".toList lines
      data := data }

def delimiter (boundary : List Char) : List Char := lineBreak ++ "--".toList ++ boundary

/-- The parts after a delimiter. -/
def parts (boundary : List Char) : Nat → List Char → Option (List Part)
  | 0, _ => none
  | fuel + 1, s =>
    match after "--".toList s with
    | some _ => some []
    | none => do
      let s ← after lineBreak s
      let (section_, s) ← cut (delimiter boundary) s
      let p ← parsePart section_
      let ps ← parts boundary fuel s
      some (p :: ps)

def parse (boundary body : List Char) : Option (List Part) := do
  let (_, s) ← cut (delimiter boundary) (lineBreak ++ body)
  parts boundary (s.length + 1) s

example : parse "B".toList
    "--B\r\nContent-Disposition: form-data; name=a; filename=\x22f;g\x22\r\nContent-Type: t\r\n\r\nx\r\n\r\n--B--\r\n".toList =
      some [⟨['a'], some ['f', ';', 'g'], some ['t'], none, ['x', '\r', '\n']⟩] := by
  decide

/-- The first line of a header. -/
theorem headerLines_succ {fuel : Nat} {s : List Char} {lines : List (List Char)} {data : List Char}
    (h : headerLines (fuel + 1) s = some (lines, data)) :
    ∃ line rest, cut lineBreak s = some (line, rest) ∧
      (line = [] ∧ lines = [] ∨ line ≠ [] ∧ ∃ tail, lines = line :: tail) := by
  simp only [headerLines, Option.bind_eq_bind, Option.bind_eq_some_iff] at h
  obtain ⟨⟨line, rest⟩, hcut, h⟩ := h
  refine ⟨line, rest, hcut, ?_⟩
  split at h
  · next hline =>
    cases h
    exact .inl ⟨hline, rfl⟩
  · next hline =>
    obtain ⟨⟨tail, data'⟩, -, h⟩ := Option.bind_eq_some_iff.mp h
    cases h
    exact .inr ⟨hline, tail, rfl⟩

end Perception.Lib.Multipart
