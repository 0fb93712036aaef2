import Mathlib.Algebra.Group.Nat.Defs
import Mathlib.Data.List.TakeWhile

/-!
# Reading from a stream of characters

The formatted input of a stream: words and numbers behind white space, and lines. A read
that touches the end of the characters makes every later read fail.
-/
namespace Perception.Lib

set_option autoImplicit false

structure IStream where
  buf : List Char
  /-- Neither the end nor a failure so far. -/
  good : Bool
  deriving DecidableEq

namespace IStream

/-- White space in the classic locale. -/
def isspace (c : Char) : Bool := c = ' ' || (0x09 ≤ c.toNat && c.toNat ≤ 0x0d)

def fail (st : IStream) : IStream := { st with good := false }

def skipws (st : IStream) : IStream :=
  match st.buf.dropWhile isspace with
  | [] => ⟨[], false⟩
  | buf => ⟨buf, true⟩

/-- `>>` into a string, which keeps its text when nothing is read. -/
def readWord (st : IStream) (str : List Char) : List Char × IStream :=
  if !st.good || !st.skipws.good then (str, st.skipws.fail)
  else
    match st.skipws.buf.dropWhile (!isspace ·) with
    | [] => (st.skipws.buf, ⟨[], false⟩)
    | buf => (st.skipws.buf.takeWhile (!isspace ·), ⟨buf, true⟩)

def digitsValue (ds : List Char) : Nat := ds.foldl (fun n d => 10 * n + (d.toNat - '0'.toNat)) 0

/-- `>>` into an `unsigned int`, which keeps its value when nothing is read. A minus sign
wraps around, and a number that is too large gives the largest one. -/
def readUnsigned (st : IStream) (value : Nat) : Nat × IStream :=
  if !st.good || !st.skipws.good then (value, st.skipws.fail)
  else
    let buf := st.skipws.buf
    let unsigned := match buf with
      | '+' :: rest => rest
      | '-' :: rest => rest
      | rest => rest
    let ds := unsigned.takeWhile Char.isDigit
    let st' : IStream := ⟨unsigned.dropWhile Char.isDigit, !(unsigned.dropWhile Char.isDigit).isEmpty⟩
    if ds.isEmpty then (0, st'.fail)
    else if 2 ^ 32 ≤ digitsValue ds then (2 ^ 32 - 1, st'.fail)
    else if buf.head? = some '-' then ((2 ^ 32 - digitsValue ds) % 2 ^ 32, st')
    else (digitsValue ds, st')

/-- Whether something is read, the line without the delimiter, and the stream behind it. -/
def getline (delim : Char) (st : IStream) : Bool × List Char × IStream :=
  if !st.good then (false, [], st)
  else
    match st.buf.dropWhile (· ≠ delim) with
    | [] => (!st.buf.isEmpty, st.buf, ⟨[], false⟩)
    | _ :: rest => (true, st.buf.takeWhile (· ≠ delim), ⟨rest, true⟩)

variable {delim : Char} {line rest : List Char} {st : IStream}

theorem getline_append (h : delim ∉ line) :
    getline delim ⟨line ++ delim :: rest, true⟩ = (true, line, ⟨rest, true⟩) := by
  have hp : ∀ c ∈ line, decide (c ≠ delim) = true := fun c hc => decide_eq_true fun heq => h (heq ▸ hc)
  have hdrop : (line ++ delim :: rest).dropWhile (· ≠ delim) = delim :: rest := by
    rw [List.dropWhile_append_of_pos hp, List.dropWhile_cons_of_neg (by simp)]
  have htake : (line ++ delim :: rest).takeWhile (· ≠ delim) = line := by
    rw [List.takeWhile_append_of_pos hp, List.takeWhile_cons_of_neg (by simp), List.append_nil]
  simp only [getline, Bool.not_true, Bool.false_eq_true, if_false, hdrop, htake]

/-- The last line may lack its delimiter. -/
theorem getline_of_not_mem (h : delim ∉ line) : getline delim ⟨line, true⟩ = (!line.isEmpty, line, ⟨[], false⟩) := by
  have hdrop : line.dropWhile (· ≠ delim) = [] := by
    rw [List.dropWhile_eq_nil_iff]
    exact fun c hc => decide_eq_true fun heq => h (heq ▸ hc)
  simp only [getline, Bool.not_true, Bool.false_eq_true, if_false, hdrop]

theorem getline_of_not_good (h : st.good = false) : st.getline delim = (false, [], st) := by
  simp only [getline, h, Bool.not_false, if_true]

/-- A line that is read makes the stream shorter. -/
theorem length_getline_lt (h : (st.getline delim).1 = true) :
    (st.getline delim).2.2.buf.length < st.buf.length := by
  cases hgood : st.good with
  | false =>
    rw [getline_of_not_good hgood] at h
    exact absurd h Bool.false_ne_true
  | true =>
    simp only [getline, hgood, Bool.not_true, Bool.false_eq_true, if_false] at h ⊢
    cases hdrop : st.buf.dropWhile (· ≠ delim) with
    | nil =>
      simp only [hdrop] at h ⊢
      exact List.length_pos_iff.mpr fun hnil => by
        rw [hnil] at h
        exact Bool.false_ne_true h
    | cons c rest =>
      have hle := (List.dropWhile_suffix (l := st.buf) (· ≠ delim)).length_le
      rw [hdrop, List.length_cons] at hle
      exact hle

/-- What a loop over `getline` reads. -/
def lines (delim : Char) (st : IStream) : List (List Char) :=
  if _h : (st.getline delim).1 = true then (st.getline delim).2.1 :: lines delim (st.getline delim).2.2 else []
termination_by st.buf.length
decreasing_by exact length_getline_lt _h

/-- Lines with a delimiter behind each are read back. -/
theorem lines_flatMap {ls : List (List Char)} (h : ∀ l ∈ ls, delim ∉ l) :
    lines delim ⟨ls.flatMap (· ++ [delim]), true⟩ = ls := by
  induction ls with
  | nil =>
    rw [lines]
    rfl
  | cons l ls ih =>
    obtain ⟨hl, hls⟩ := List.forall_mem_cons.mp h
    have hget : getline delim ⟨(l :: ls).flatMap (· ++ [delim]), true⟩ =
        (true, l, ⟨ls.flatMap (· ++ [delim]), true⟩) := by
      rw [List.flatMap_cons, List.append_assoc, List.singleton_append]
      exact getline_append hl
    rw [lines, hget]
    simp only [dif_pos]
    rw [ih hls]

end IStream

/-- What a number is written with. -/
def isNumChar (c : Char) : Bool := c.isAlphanum || c == '+' || c == '-' || c == '.'

theorem isNumChar_toNat {c : Char} (h : isNumChar c = true) : 33 ≤ c.toNat ∧ c ≠ ':' := by
  change (decide (c.val ≥ 65 ∧ c.val ≤ 90) || (c.val ≥ 97 && c.val ≤ 122) || (c.val ≥ 48 && c.val ≤ 57) || c == '+' ||
    c == '-' || c == '.') = true at h
  simp only [Bool.or_eq_true, Bool.and_eq_true, decide_eq_true_eq, beq_iff_eq] at h
  rcases h with ((((h | h) | h) | h) | h) | h
  · have h₁ : 65 ≤ c.toNat := h.1
    refine ⟨by omega, ?_⟩
    rintro rfl
    exact absurd h₁ (by decide)
  · have h₁ : 97 ≤ c.toNat := h.1
    refine ⟨by omega, ?_⟩
    rintro rfl
    exact absurd h₁ (by decide)
  · have h₁ : 48 ≤ c.toNat := h.1
    have h₂ : c.toNat ≤ 57 := h.2
    refine ⟨by omega, ?_⟩
    rintro rfl
    exact absurd h₂ (by decide)
  all_goals
    subst h
    decide

/-- The texts of the numbers of a type: `<<`, and `>>` behind white space, which leaves the
characters after the number. What is written is read back rounded. -/
structure NumText (R : Type) where
  put : R → List Char
  get : List Char → Option (R × List Char)
  round : R → R
  put_ne_nil : ∀ x, put x ≠ []
  put_chars : ∀ x, ∀ c ∈ put x, isNumChar c = true
  get_put : ∀ x rest, get (put x ++ ' ' :: rest) = some (round x, ' ' :: rest)
  get_shorter : ∀ {cs x rest}, get cs = some (x, rest) → rest.length < cs.length

namespace NumText

variable {R : Type} (io : NumText R)

theorem put_not_space (x : R) : ∀ c ∈ io.put x, IStream.isspace c = false := by
  intro c hc
  have hnum := (isNumChar_toNat (io.put_chars x c hc)).1
  have hne : c ≠ ' ' := by
    rintro rfl
    exact absurd hnum (by decide)
  have hlt : ¬ c.toNat ≤ 0x0d := by omega
  simp only [IStream.isspace, hne, hlt, decide_false, Bool.and_false, Bool.or_false]

theorem get_nil : io.get [] = none := by
  cases h : io.get [] with
  | none => rfl
  | some r => exact absurd (io.get_shorter h) (Nat.not_lt_zero _)

/-- What a loop over `>>` reads. -/
def numbers (cs : List Char) : List R :=
  match _h : io.get (cs.dropWhile IStream.isspace) with
  | some (x, rest) => x :: numbers rest
  | none => []
termination_by cs.length
decreasing_by exact Nat.lt_of_lt_of_le (io.get_shorter _h) (List.dropWhile_suffix _).length_le

theorem numbers_of_none {cs : List Char} (h : io.get (cs.dropWhile IStream.isspace) = none) : io.numbers cs = [] := by
  rw [numbers]
  split
  · next x rest hsome =>
    rw [h] at hsome
    cases hsome
  · rfl

theorem numbers_of_some {cs rest : List Char} {x : R} (h : io.get (cs.dropWhile IStream.isspace) = some (x, rest)) :
    io.numbers cs = x :: io.numbers rest := by
  rw [numbers]
  split
  · next x' rest' hsome =>
    rw [h] at hsome
    cases hsome
    rfl
  · next hnone =>
    rw [h] at hnone
    cases hnone

theorem numbers_cons_space (cs : List Char) : io.numbers (' ' :: cs) = io.numbers cs := by
  have hdrop : (' ' :: cs).dropWhile IStream.isspace = cs.dropWhile IStream.isspace := List.dropWhile_cons_of_pos rfl
  cases hget : io.get (cs.dropWhile IStream.isspace) with
  | none => rw [io.numbers_of_none hget, io.numbers_of_none (by rw [hdrop, hget])]
  | some r => rw [io.numbers_of_some hget, io.numbers_of_some (by rw [hdrop, hget])]

/-- Numbers with a blank behind each are read back. -/
theorem numbers_flatMap (xs : List R) : io.numbers (xs.flatMap fun x => io.put x ++ [' ']) = xs.map io.round := by
  induction xs with
  | nil => exact io.numbers_of_none io.get_nil
  | cons x xs ih =>
    obtain ⟨c, cs, hput⟩ := List.exists_cons_of_ne_nil (io.put_ne_nil x)
    have hc : IStream.isspace c = false := io.put_not_space x c (by rw [hput]; exact List.mem_cons_self)
    have htext : ((x :: xs).flatMap fun x => io.put x ++ [' ']) =
        io.put x ++ ' ' :: xs.flatMap fun x => io.put x ++ [' '] := by
      rw [List.flatMap_cons, List.append_assoc, List.singleton_append]
    have hdrop : (io.put x ++ ' ' :: xs.flatMap fun x => io.put x ++ [' ']).dropWhile IStream.isspace =
        io.put x ++ ' ' :: xs.flatMap fun x => io.put x ++ [' '] := by
      rw [hput, List.cons_append, List.dropWhile_cons_of_neg (by rw [hc]; exact Bool.false_ne_true)]
    rw [htext, io.numbers_of_some (by rw [hdrop]; exact io.get_put x _), numbers_cons_space, ih, List.map_cons]

def natGet (cs : List Char) : Option (Nat × List Char) :=
  if (cs.takeWhile Char.isDigit).isEmpty then none
  else some (Nat.ofDigitChars 10 (cs.takeWhile Char.isDigit) 0, cs.dropWhile Char.isDigit)

theorem isDigit_of_mem_toDigits {n : Nat} {c : Char} (h : c ∈ Nat.toDigits 10 n) : c.isDigit = true :=
  Nat.isDigit_of_mem_toDigits (by decide) (by decide) h

theorem isNumChar_of_mem_toDigits (n : Nat) : ∀ c ∈ Nat.toDigits 10 n, isNumChar c = true := by
  intro c hc
  simp only [isNumChar, Char.isAlphanum, isDigit_of_mem_toDigits hc, Bool.or_true, Bool.true_or]

theorem natGet_toDigits (n : Nat) (rest : List Char) : natGet (Nat.toDigits 10 n ++ ' ' :: rest) = some (n, ' ' :: rest) := by
  have hdigits : ∀ c ∈ Nat.toDigits 10 n, c.isDigit = true := fun c hc => isDigit_of_mem_toDigits hc
  have hne : (Nat.toDigits 10 n).isEmpty = false := List.isEmpty_eq_false_iff.mpr Nat.toDigits_ne_nil
  have htake : (Nat.toDigits 10 n ++ ' ' :: rest).takeWhile Char.isDigit = Nat.toDigits 10 n := by
    rw [List.takeWhile_append_of_pos hdigits, List.takeWhile_cons_of_neg (by decide), List.append_nil]
  have hdrop : (Nat.toDigits 10 n ++ ' ' :: rest).dropWhile Char.isDigit = ' ' :: rest := by
    rw [List.dropWhile_append_of_pos hdigits, List.dropWhile_cons_of_neg (by decide)]
  rw [natGet, htake, hdrop, hne, Nat.ofDigitChars_ten_toDigits]
  rfl

theorem natGet_shorter {cs rest : List Char} {n : Nat} (h : natGet cs = some (n, rest)) : rest.length < cs.length := by
  have hlen := congrArg List.length (List.takeWhile_append_dropWhile (p := Char.isDigit) (l := cs))
  rw [List.length_append] at hlen
  cases hempty : (cs.takeWhile Char.isDigit).isEmpty with
  | true =>
    rw [natGet, hempty] at h
    cases h
  | false =>
    rw [natGet, hempty] at h
    cases h
    have hpos : 0 < (cs.takeWhile Char.isDigit).length :=
      List.length_pos_iff.mpr (List.isEmpty_eq_false_iff.mp hempty)
    omega

/-- Whole numbers, as long as they are written with all their digits. -/
def nat : NumText Nat where
  put n := Nat.toDigits 10 n
  get := natGet
  round := id
  put_ne_nil _ := Nat.toDigits_ne_nil
  put_chars := isNumChar_of_mem_toDigits
  get_put := natGet_toDigits
  get_shorter := natGet_shorter

end NumText

end Perception.Lib
