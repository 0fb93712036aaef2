import Mathlib.Algebra.Ring.Int.Defs
import Perception.EnDecode.RoundTrip

/-!
# Where the decoder reads

The loop counts four characters for a group, whatever is left of the input, and takes a
character as the place in the table. Which inputs keep it inside is said of the pieces that
an input is cut into.
-/
namespace Perception.EnDecode.CBase64

set_option autoImplicit false

open Perception.Lib

/-- Inside the input with its NUL, or inside the table. -/
def Access.Inside (Data : List UInt8) : Access → Prop
  | data p => p ≤ Data.length
  | table n => 0 ≤ n ∧ n ≤ 122

/-- Every read of the input and of the table is inside, and no `int` overflows. -/
def ReadsInside (Data : List UInt8) : Prop :=
  ∀ OutByte, Traced.Safe (Access.Inside Data) (Decode Data (intOfSize Data.length) OutByte)

def isBreak (c : UInt8) : Bool := c == 13 || c == 10

/-- What a group takes from its start on: the characters before a `=` in the third or fourth
place, or four. -/
def groupSize (t : List UInt8) : Nat :=
  if t[2]? = some 61 then 2 else if t[3]? = some 61 then 3 else 4

theorem two_le_groupSize (t : List UInt8) : 2 ≤ groupSize t := by
  unfold groupSize
  split
  · exact Nat.le_refl 2
  · split
    · omega
    · omega

/-- Line breaks and groups. -/
def cut : List UInt8 → List (List UInt8)
  | [] => []
  | c :: t =>
    if isBreak c then [c] :: cut t
    else (c :: t).take (groupSize (c :: t)) :: cut ((c :: t).drop (groupSize (c :: t)))
termination_by t => t.length
decreasing_by
  · exact Nat.lt_succ_self _
  · have hsize := two_le_groupSize (c :: t)
    rw [List.length_drop, List.length_cons]
    omega

def breaks (g : List UInt8) : Bool := g.head?.any isBreak

/-- What the loop counts for a piece. -/
def weight (g : List UInt8) : Int := if breaks g then 1 else 4

def count (gs : List (List UInt8)) : Int := (gs.map weight).sum

/-- A group has three characters of the input from its start on, its own characters have their
places in the table, and the count stays an `int`. -/
def GroupFits (i : Int) (g : List UInt8) (post : List (List UInt8)) : Prop :=
  3 ≤ (g :: post).flatten.length ∧ (∀ c ∈ g, c ≤ 122) ∧ i + 4 ≤ INT_MAX

/-- Every piece that is begun with a count below `DataByte` is a line break or a group that
fits. -/
def PiecesFit (DataByte i : Int) (gs : List (List UInt8)) : Prop :=
  ∀ pre g post, gs = pre ++ g :: post → i + count pre < DataByte → breaks g ∨ GroupFits (i + count pre) g post

section Pieces

variable {DataByte i : Int} {g : List UInt8} {gs : List (List UInt8)}

theorem count_nonneg (gs : List (List UInt8)) : 0 ≤ count gs := by
  induction gs with
  | nil => exact Int.le_refl 0
  | cons g gs ih =>
    have hweight : 0 ≤ weight g := by
      unfold weight
      split
      · decide
      · decide
    rw [count, List.map_cons, List.sum_cons]
    exact Int.add_nonneg hweight ih

/-- No piece counts any more. -/
theorem piecesFit_of_le (h : DataByte ≤ i) (gs : List (List UInt8)) : PiecesFit DataByte i gs := by
  intro pre g post _ hlt
  have hcount := count_nonneg pre
  omega

theorem piecesFit_cons (hi : i < DataByte) :
    PiecesFit DataByte i (g :: gs) ↔ (breaks g ∨ GroupFits i g gs) ∧ PiecesFit DataByte (i + weight g) gs := by
  constructor
  · intro h
    refine ⟨?_, fun pre g' post hgs hlt => ?_⟩
    · have hfirst := h [] g gs rfl
      rw [count, List.map_nil, List.sum_nil, Int.add_zero] at hfirst
      exact hfirst hi
    · have hrest := h (g :: pre) g' post (by rw [hgs, List.cons_append])
      rw [count, List.map_cons, List.sum_cons, ← Int.add_assoc] at hrest
      exact hrest hlt
  · rintro ⟨hfirst, hrest⟩ pre g' post hgs hlt
    cases pre with
    | nil =>
      obtain ⟨rfl, rfl⟩ := List.cons.inj hgs
      rw [count, List.map_nil, List.sum_nil, Int.add_zero]
      exact hfirst
    | cons p pre =>
      obtain ⟨rfl, rfl⟩ := List.cons.inj hgs
      rw [count, List.map_cons, List.sum_cons, ← Int.add_assoc] at hlt ⊢
      exact hrest pre g' post rfl hlt

end Pieces

theorem cut_flatten (t : List UInt8) : (cut t).flatten = t := by
  induction t using cut.induct with
  | case1 => rw [cut, List.flatten_nil]
  | case2 c t hc ih => rw [cut, if_pos hc, List.flatten_cons, ih, List.singleton_append]
  | case3 c t hc ih => rw [cut, if_neg hc, List.flatten_cons, ih, List.take_append_drop]

section Reads

variable {Data : List UInt8} {p n : Nat} {r : Decoded} {β : Type}

theorem charAt_isSome_iff : (charAt Data p).isSome ↔ p ≤ Data.length := by
  rw [charAt, isSome_getElem?, List.length_append, List.length_singleton, Nat.lt_succ_iff]

theorem log_readData (Data : List UInt8) (p : Nat) : (readData Data p).log = [.data p] := by
  unfold readData
  cases (Data ++ [0])[p]? with
  | none => rfl
  | some c => rfl

theorem safe_readData_bind {f : UInt8 → Traced Access β} :
    Traced.Safe (Access.Inside Data) (readData Data p >>= f) ↔
      ∃ c, charAt Data p = some c ∧ Traced.Safe (Access.Inside Data) (f c) := by
  rw [Traced.safe_bind_iff, log_readData, val_readData, List.forall_mem_singleton]
  apply and_iff_right_of_imp
  intro hread
  obtain ⟨c, hc, -⟩ := hread
  exact charAt_isSome_iff.mp (by rw [hc]; rfl)

/-- The value in the table for a character that has its place there. -/
def tableValue (c : UInt8) : Nat := DecodeTable.getD c.toNat 0

theorem readTable_lt : ∀ n < 123, readTable (UInt8.ofNat n) = ⟨[.table n], some (tableValue (UInt8.ofNat n))⟩ := by
  decide +kernel

theorem val_readTable_outside : ∀ n < 256, 122 < n → (readTable (UInt8.ofNat n)).val = none := by
  decide +kernel

theorem readTable_eq {c : UInt8} (h : c ≤ 122) : readTable c = ⟨[.table c.toNat], some (tableValue c)⟩ := by
  have hlt : c.toNat < 123 := Nat.lt_succ_of_le h
  have htable := readTable_lt c.toNat hlt
  rwa [UInt8.ofNat_toNat] at htable

theorem val_readTable_eq_none {c : UInt8} (h : ¬c ≤ 122) : (readTable c).val = none := by
  have hlt : 122 < c.toNat := Nat.lt_of_not_le h
  have htable := val_readTable_outside c.toNat c.toNat_lt hlt
  rwa [UInt8.ofNat_toNat] at htable

theorem safe_readTable_bind {c : UInt8} {f : Nat → Traced Access β} :
    Traced.Safe (Access.Inside Data) (readTable c >>= f) ↔
      c ≤ 122 ∧ Traced.Safe (Access.Inside Data) (f (tableValue c)) := by
  rw [Traced.safe_bind_iff]
  by_cases hc : c ≤ 122
  · have hinside : Access.Inside Data (.table c.toNat) := ⟨Int.natCast_nonneg _, Int.ofNat_le.mpr hc⟩
    rw [readTable_eq hc, List.forall_mem_singleton, and_iff_right hinside, and_iff_right hc]
    simp only [Option.some.injEq, exists_eq_left']
  · rw [val_readTable_eq_none hc]
    refine iff_of_false ?_ fun h => hc h.1
    intro hsafe
    obtain ⟨-, v, hv, -⟩ := hsafe
    cases hv

theorem safe_nextValue_bind {f : Nat → Traced Access β} :
    Traced.Safe (Access.Inside Data) (nextValue Data p >>= f) ↔
      ∃ c, charAt Data p = some c ∧ c ≤ 122 ∧ Traced.Safe (Access.Inside Data) (f (tableValue c)) := by
  rw [nextValue, bind_assoc, safe_readData_bind]
  simp only [safe_readTable_bind]

variable {f : Decoded × Nat → Traced Access β} {K : Nat → Prop}

/-- What follows a group depends on the place behind it only. -/
theorem safe_decodeFourth_bind
    (hK : ∀ r q, p ≤ q → q ≤ p + 1 → (Traced.Safe (Access.Inside Data) (f (r, q)) ↔ K q)) :
    Traced.Safe (Access.Inside Data) (decodeFourth Data p n r >>= f) ↔
      ∃ c, charAt Data p = some c ∧ if c = 61 then K p else c ≤ 122 ∧ K (p + 1) := by
  rw [decodeFourth, bind_assoc, safe_readData_bind]
  refine exists_congr fun c => and_congr_right fun hc => ?_
  by_cases hpad : c = 61
  · rw [if_neg (not_not.mpr hpad), if_pos hpad, pure_bind, hK r p (Nat.le_refl p) (Nat.le_succ p)]
  · rw [if_pos hpad, if_neg hpad, bind_assoc, safe_nextValue_bind, hc]
    simp only [Option.some.injEq, exists_eq_left', pure_bind, hK _ _ (Nat.le_succ p) (Nat.le_refl (p + 1))]

theorem safe_decodeThird_bind
    (hK : ∀ r q, p ≤ q → q ≤ p + 2 → (Traced.Safe (Access.Inside Data) (f (r, q)) ↔ K q)) :
    Traced.Safe (Access.Inside Data) (decodeThird Data p n r >>= f) ↔
      ∃ c, charAt Data p = some c ∧ if c = 61 then K p else c ≤ 122 ∧
        ∃ d, charAt Data (p + 1) = some d ∧ if d = 61 then K (p + 1) else d ≤ 122 ∧ K (p + 2) := by
  rw [decodeThird, bind_assoc, safe_readData_bind]
  refine exists_congr fun c => and_congr_right fun hc => ?_
  by_cases hpad : c = 61
  · rw [if_neg (not_not.mpr hpad), if_pos hpad, pure_bind, hK r p (Nat.le_refl p) (Nat.le_add_right p 2)]
  · have hK' (r : Decoded) (q : Nat) (hpq : p + 1 ≤ q) (hq : q ≤ p + 1 + 1) :
        Traced.Safe (Access.Inside Data) (f (r, q)) ↔ K q := hK r q (by omega) hq
    rw [if_pos hpad, if_neg hpad, bind_assoc, safe_nextValue_bind, hc]
    simp only [Option.some.injEq, exists_eq_left', safe_decodeFourth_bind hK']

theorem safe_decodeGroup_bind
    (hK : ∀ r q, p + 2 ≤ q → q ≤ p + 4 → (Traced.Safe (Access.Inside Data) (f (r, q)) ↔ K q)) :
    Traced.Safe (Access.Inside Data) (decodeGroup Data p r >>= f) ↔
      ∃ a, charAt Data p = some a ∧ a ≤ 122 ∧ ∃ b, charAt Data (p + 1) = some b ∧ b ≤ 122 ∧
        ∃ c, charAt Data (p + 2) = some c ∧ if c = 61 then K (p + 2) else c ≤ 122 ∧
          ∃ d, charAt Data (p + 3) = some d ∧ if d = 61 then K (p + 3) else d ≤ 122 ∧ K (p + 4) := by
  rw [decodeGroup, bind_assoc, safe_nextValue_bind]
  simp only [bind_assoc, safe_nextValue_bind, safe_decodeThird_bind hK]

end Reads

/-- A group is inside if three characters of the input are left, and its characters have their
places in the table. -/
theorem group_reads_iff {Data t : List UInt8} {p : Nat} (K : Nat → Prop) (ht : Data.drop p = t) (hne : t ≠ []) :
    (∃ a, charAt Data p = some a ∧ a ≤ 122 ∧ ∃ b, charAt Data (p + 1) = some b ∧ b ≤ 122 ∧
      ∃ c, charAt Data (p + 2) = some c ∧ if c = 61 then K (p + 2) else c ≤ 122 ∧
        ∃ d, charAt Data (p + 3) = some d ∧ if d = 61 then K (p + 3) else d ≤ 122 ∧ K (p + 4)) ↔
      3 ≤ t.length ∧ (∀ c ∈ t.take (groupSize t), c ≤ 122) ∧ K (p + groupSize t) := by
  have hdrop : (Data ++ [0]).drop p = t ++ [0] := by
    rw [List.drop_append_of_le_length, ht]
    by_contra hlt
    exact hne (ht ▸ List.drop_eq_nil_of_le (Nat.le_of_not_le hlt))
  have hchar (k : Nat) : charAt Data (p + k) = (t ++ [0])[k]? := charAt_of_drop hdrop k
  have hfirst : charAt Data p = (t ++ [0])[0]? := hchar 0
  rw [hfirst, hchar 1, hchar 2, hchar 3]
  match t with
  | [] => exact absurd rfl hne
  | [a] => simp
  | [a, b] => simp
  | [a, b, c] =>
    by_cases hc : c = 61
    · simp [groupSize, hc, and_assoc]
    · simp [groupSize, hc, and_assoc]
  | a :: b :: c :: d :: t =>
    by_cases hc : c = 61
    · simp [groupSize, hc, and_assoc]
    · by_cases hd : d = 61
      · simp [groupSize, hc, hd, and_assoc]
      · simp [groupSize, hc, hd, and_assoc]

section Loop

variable {Data t : List UInt8} {DataByte i : Int} {p fuel : Nat} {r : Decoded}

theorem breaks_take_groupSize (c : UInt8) (t : List UInt8) :
    breaks ((c :: t).take (groupSize (c :: t))) = isBreak c := by
  obtain ⟨n, hn⟩ := Nat.exists_eq_add_of_le' (Nat.le_of_succ_le (two_le_groupSize (c :: t)))
  rw [hn, List.take_succ_cons]
  rfl

/-- The pieces of an input that does not begin with a line break. -/
theorem piecesFit_group {c : UInt8} (hi : i < DataByte) (hc : isBreak c = false) :
    PiecesFit DataByte i (cut (c :: t)) ↔
      (3 ≤ (c :: t).length ∧ (∀ c' ∈ (c :: t).take (groupSize (c :: t)), c' ≤ 122) ∧ i + 4 ≤ INT_MAX) ∧
        PiecesFit DataByte (i + 4) (cut ((c :: t).drop (groupSize (c :: t)))) := by
  have hbreaks := (breaks_take_groupSize c t).trans hc
  have hnot : ¬isBreak c = true := by
    rw [hc]
    exact Bool.false_ne_true
  have hweight : weight ((c :: t).take (groupSize (c :: t))) = 4 := by
    rw [weight, hbreaks]
    rfl
  have hrest : ((c :: t).take (groupSize (c :: t)) :: cut ((c :: t).drop (groupSize (c :: t)))).flatten = c :: t := by
    rw [List.flatten_cons, cut_flatten, List.take_append_drop]
  rw [cut, if_neg hnot, piecesFit_cons hi, hbreaks, hweight, GroupFits, hrest]
  simp only [Bool.false_eq_true, false_or]

theorem piecesFit_break {c : UInt8} (hi : i < DataByte) (hc : isBreak c = true) :
    PiecesFit DataByte i (cut (c :: t)) ↔ PiecesFit DataByte (i + 1) (cut t) := by
  have hbreaks : breaks [c] = true := hc
  have hweight : weight [c] = 1 := by
    rw [weight, hbreaks]
    rfl
  rw [cut, if_pos hc, piecesFit_cons hi, hweight, and_iff_right (.inl hbreaks)]

theorem isBreak_eq_false_iff (c : UInt8) : isBreak c = false ↔ c ≠ 13 ∧ c ≠ 10 := by
  rw [isBreak, Bool.or_eq_false_iff, beq_eq_false_iff_ne, beq_eq_false_iff_ne]

/-- From a place on that is not behind the count, the loop is inside if and only if the pieces
from there on fit. -/
theorem safe_DecodeLoop_iff (hsize : DataByte ≤ Data.length) (ht : Data.drop p = t) (hp : p ≤ i)
    (hfuel : t.length < fuel) :
    Traced.Safe (Access.Inside Data) (DecodeLoop Data DataByte fuel p i r) ↔ PiecesFit DataByte i (cut t) := by
  induction fuel generalizing p i t r with
  | zero => exact absurd hfuel (Nat.not_lt_zero _)
  | succ fuel ih =>
    rw [DecodeLoop]
    by_cases hi : i < DataByte
    · have hne : t ≠ [] := by
        intro hnil
        have hlen := List.drop_eq_nil_iff.mp (ht.trans hnil)
        omega
      obtain ⟨c, t', rfl⟩ := List.exists_cons_of_ne_nil hne
      have hchar : charAt Data p = some c := by
        have hget : Data[p]? = some c := by
          have hhead := List.head?_drop (l := Data) (i := p)
          rw [ht] at hhead
          exact hhead.symm
        rw [charAt, List.getElem?_append_left (List.getElem?_eq_some_iff.mp hget).1, hget]
      rw [if_pos hi, safe_readData_bind, hchar]
      simp only [Option.some.injEq, exists_eq_left']
      cases hc : isBreak c with
      | true =>
        have hcond : ¬(c ≠ 13 ∧ c ≠ 10) := by
          rw [← isBreak_eq_false_iff, hc]
          decide
        have hdrop : Data.drop (p + 1) = t' := by rw [← List.drop_drop, ht, List.drop_one, List.tail_cons]
        rw [if_neg hcond, piecesFit_break hi hc, ih hdrop (by omega) (Nat.lt_of_succ_lt_succ hfuel)]
      | false =>
        have hcond : c ≠ 13 ∧ c ≠ 10 := (isBreak_eq_false_iff c).mp hc
        obtain ⟨K, hrest⟩ : ∃ K : Nat → Prop, ∀ q, K q ↔
            i + 4 ≤ INT_MAX ∧ PiecesFit DataByte (i + 4) (cut (Data.drop q)) := ⟨_, fun _ => Iff.rfl⟩
        have hK (r : Decoded) (q : Nat) (hpq : p + 2 ≤ q) (hq : q ≤ p + 4) :
            Traced.Safe (Access.Inside Data)
              (if INT_MAX < i + 4 then .halt else DecodeLoop Data DataByte fuel q (i + 4) r) ↔ K q := by
          rw [hrest]
          by_cases hmax : INT_MAX < i + 4
          · rw [if_pos hmax]
            exact iff_of_false Traced.not_safe_halt fun h => Int.not_lt.mpr h.1 hmax
          · have hlen := congrArg List.length ht
            rw [List.length_drop] at hlen
            have hshort : (Data.drop q).length < fuel := by
              rw [List.length_drop]
              omega
            rw [if_neg hmax, and_iff_right (Int.not_lt.mp hmax), ih rfl (by omega) hshort]
        rw [if_pos hcond, safe_decodeGroup_bind hK, group_reads_iff K ht hne, hrest, piecesFit_group hi hc,
          ← List.drop_drop, ht]
        simp only [and_assoc]
    · rw [if_neg hi]
      exact iff_of_true (Traced.safe_pure r) (piecesFit_of_le (Int.not_lt.mp hi) _)

end Loop

/-- **Reads of the decoder.** A decoding stays inside its input and the table if and only if
every group that it begins has at least three characters of the input left and no character
past the last place of the table. -/
theorem readsInside_iff (Data : List UInt8) :
    ReadsInside Data ↔ PiecesFit (intOfSize Data.length) 0 (cut Data) := by
  have hsize : intOfSize Data.length ≤ Data.length := by
    by_cases h : (Data.length : Int) ≤ INT_MAX
    · exact Int.le_of_eq (intOfSize_of_le h)
    · have hle := intOfSize_le (Int.not_le.mp h)
      omega
  have hrun (OutByte : Int) : Traced.Safe (Access.Inside Data) (Decode Data (intOfSize Data.length) OutByte) ↔
      PiecesFit (intOfSize Data.length) 0 (cut Data) :=
    safe_DecodeLoop_iff hsize List.drop_zero (Int.le_refl 0) (by omega)
  exact ⟨fun h => (hrun 0).mp (h 0), fun h OutByte => (hrun OutByte).mpr h⟩

/-- Without its padding, `Zg==` is read past its end. -/
theorem not_readsInside_unpadded : ¬ReadsInside [90, 103] := by
  intro h
  exact absurd (h 0).2 (by decide +kernel)

end Perception.EnDecode.CBase64
