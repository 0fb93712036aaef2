import Perception.EnDecode.Base64

/-!
# Decoding what was encoded

A triple of bytes is cut into four groups of six bits, and the decoder puts them together
again; the one or two bytes at the end come back by the padding. The lengths have to be
`int`s for this.
-/
namespace Perception.EnDecode.CBase64

set_option autoImplicit false

open Perception.Lib

/-- The decoding table has the place of every symbol. -/
theorem val_readTable_symbol : ∀ n < 64, (readTable (symbol n)).val = some n := by decide +kernel

theorem symbol_ne : ∀ n < 64, symbol n ≠ 13 ∧ symbol n ≠ 10 ∧ symbol n ≠ 61 := by decide +kernel

section Bits

variable {x y z : Nat}

theorem and_63 (n : Nat) : n &&& 0x3F = n % 64 := Nat.and_two_pow_sub_one_eq_mod n 6

theorem and_255 (n : Nat) : n &&& 0xFF = n % 256 := Nat.and_two_pow_sub_one_eq_mod n 8

theorem shiftRight_and_16 (n : Nat) : (n &&& 0x00FF0000) >>> 16 = n / 65536 % 256 := by
  rw [Nat.shiftRight_and_distrib, Nat.shiftRight_eq_div_pow]
  exact and_255 _

theorem shiftRight_and_8 (n : Nat) : (n &&& 0x0000FF00) >>> 8 = n / 256 % 256 := by
  rw [Nat.shiftRight_and_distrib, Nat.shiftRight_eq_div_pow]
  exact and_255 _

theorem first_six (x : Nat) : x >>> 2 = x / 4 := Nat.shiftRight_eq_div_pow x 2

/-- The end of one byte and the start of the next. -/
theorem second_six (hy : y < 256) : ((x <<< 4) ||| (y >>> 4)) &&& 0x3F = x % 4 * 16 + y / 16 := by
  have hlow : y >>> 4 < 2 ^ 4 := by
    rw [Nat.shiftRight_eq_div_pow]
    omega
  rw [← Nat.shiftLeft_add_eq_or_of_lt hlow, and_63, Nat.shiftLeft_eq, Nat.shiftRight_eq_div_pow]
  omega

theorem third_six (hz : z < 256) : ((y <<< 2) ||| (z >>> 6)) &&& 0x3F = y % 16 * 4 + z / 64 := by
  have hlow : z >>> 6 < 2 ^ 2 := by
    rw [Nat.shiftRight_eq_div_pow]
    omega
  rw [← Nat.shiftLeft_add_eq_or_of_lt hlow, and_63, Nat.shiftLeft_eq, Nat.shiftRight_eq_div_pow]
  omega

theorem tail_first (hx : x < 256) : (x &&& 0xFC) >>> 2 = x / 4 := by
  have hmask : (x &&& 0xFC) >>> 2 = (x >>> 2) &&& 0x3F := Nat.shiftRight_and_distrib
  rw [hmask, and_63, first_six]
  omega

theorem tail_second (x : Nat) : (x &&& 0x03) <<< 4 = x % 4 * 16 := by
  rw [Nat.shiftLeft_eq]
  exact congrArg (· * 16) (Nat.and_two_pow_sub_one_eq_mod x 2)

theorem tail_third (y : Nat) : (y &&& 0x0F) <<< 2 = y % 16 * 4 := by
  rw [Nat.shiftLeft_eq]
  exact congrArg (· * 4) (Nat.and_two_pow_sub_one_eq_mod y 4)

theorem tail_both (hy : y < 256) : ((x &&& 0x03) <<< 4) ||| ((y &&& 0xF0) >>> 4) = x % 4 * 16 + y / 16 := by
  have hmask : (y &&& 0xF0) >>> 4 = (y >>> 4) &&& 0x0F := Nat.shiftRight_and_distrib
  have hhigh : (y &&& 0xF0) >>> 4 = y / 16 := by
    rw [hmask, Nat.shiftRight_eq_div_pow]
    exact (Nat.and_two_pow_sub_one_eq_mod (y / 16) 4).trans (Nat.mod_eq_of_lt (by omega))
  have hlow : y / 16 < 2 ^ 4 := by omega
  rw [hhigh, ← Nat.shiftLeft_add_eq_or_of_lt hlow, tail_second]

end Bits

section Encode

variable (a b c : UInt8) (x : List UInt8)

theorem Encode_one : Encode [a] 1 = [symbol (a.toNat / 4), symbol (a.toNat % 4 * 16), 61, 61] := by
  have hfirst : (a.toNat &&& 0xFC) >>> 2 = a.toNat / 4 := tail_first a.toNat_lt
  have hsecond : (a.toNat &&& 0x03) <<< 4 = a.toNat % 4 * 16 := tail_second a.toNat
  rw [← hfirst, ← hsecond]
  rfl

theorem Encode_two : Encode [a, b] 2 =
    [symbol (a.toNat / 4), symbol (a.toNat % 4 * 16 + b.toNat / 16), symbol (b.toNat % 16 * 4), 61] := by
  have hfirst : (a.toNat &&& 0xFC) >>> 2 = a.toNat / 4 := tail_first a.toNat_lt
  have hsecond : ((a.toNat &&& 0x03) <<< 4) ||| ((b.toNat &&& 0xF0) >>> 4) = a.toNat % 4 * 16 + b.toNat / 16 :=
    tail_both b.toNat_lt
  have hthird : (b.toNat &&& 0x0F) <<< 2 = b.toNat % 16 * 4 := tail_third b.toNat
  rw [← hfirst, ← hsecond, ← hthird]
  rfl

theorem Encode_triple : Encode (a :: b :: c :: x) (x.length + 3 : Nat) =
    symbol (a.toNat / 4) :: symbol (a.toNat % 4 * 16 + b.toNat / 16) :: symbol (b.toNat % 16 * 4 + c.toNat / 64) ::
      symbol (c.toNat % 64) :: Encode x x.length := by
  have hcount : ((x.length + 3 : Nat) : Int).tdiv 3 = ((x.length : Int).tdiv 3) + 1 := by
    rw [Int.tdiv_eq_ediv_of_nonneg (by omega), Int.tdiv_eq_ediv_of_nonneg (by omega)]
    omega
  have hmod : ((x.length + 3 : Nat) : Int).tmod 3 = (x.length : Int).tmod 3 := by
    rw [Int.tmod_eq_emod_of_nonneg (by omega), Int.tmod_eq_emod_of_nonneg (by omega)]
    omega
  have htriples : (((x.length + 3 : Nat) : Int).tdiv 3).toNat = ((x.length : Int).tdiv 3).toNat + 1 := by
    rw [hcount, Int.tdiv_eq_ediv_of_nonneg (by omega)]
    omega
  simp only [Encode, htriples, hmod, encodeTriples, first_six, second_six b.toNat_lt, third_six c.toNat_lt, and_63,
    List.cons_append]

end Encode

/-- Four characters for three bytes. -/
theorem length_Encode : ∀ x : List UInt8, (Encode x x.length).length = 4 * ((x.length + 2) / 3)
  | [] => rfl
  | [a] => by
    have hone : Encode [a] ([a].length : Nat) = Encode [a] 1 := rfl
    rw [hone, Encode_one]
    simp
  | [a, b] => by
    have htwo : Encode [a, b] ([a, b].length : Nat) = Encode [a, b] 2 := rfl
    rw [htwo, Encode_two]
    simp
  | a :: b :: c :: x => by
    have ih := length_Encode x
    have hlen : (a :: b :: c :: x).length = x.length + 3 := rfl
    rw [hlen, Encode_triple, List.length_cons, List.length_cons, List.length_cons, List.length_cons, ih]
    omega

section Group

variable {Data : List UInt8} {p : Nat} {a b c d n : Nat} {r : Decoded}

/-- The character at a place, with the NUL behind the last. -/
abbrev charAt (Data : List UInt8) (p : Nat) : Option UInt8 := (Data ++ [0])[p]?

theorem val_readData (Data : List UInt8) (p : Nat) : (readData Data p).val = charAt Data p := by
  unfold readData charAt
  cases (Data ++ [0])[p]? with
  | none => rfl
  | some c => rfl

theorem val_nextValue (ha : a < 64) (h : charAt Data p = some (symbol a)) : (nextValue Data p).val = some a := by
  rw [nextValue, Traced.val_bind_of_some ((val_readData Data p).trans h), val_readTable_symbol a ha]

theorem val_decodeFourth (hd : d < 64) (h : charAt Data p = some (symbol d)) :
    (decodeFourth Data p n r).val = some (r.push ((n + d) % 256), p + 1) := by
  rw [decodeFourth, Traced.val_bind_of_some ((val_readData Data p).trans h), if_pos (symbol_ne d hd).2.2,
    Traced.val_bind_of_some (val_nextValue hd h)]
  simp only [and_255, Traced.val_pure]

theorem val_decodeFourth_pad (h : charAt Data p = some 61) : (decodeFourth Data p n r).val = some (r, p) := by
  rw [decodeFourth, Traced.val_bind_of_some ((val_readData Data p).trans h)]
  rfl

theorem val_decodeThird (hc : c < 64) (h : charAt Data p = some (symbol c)) :
    (decodeThird Data p n r).val =
      (decodeFourth Data (p + 1) (n + c * 64) (r.push ((n + c * 64) / 256 % 256))).val := by
  rw [decodeThird, Traced.val_bind_of_some ((val_readData Data p).trans h), if_pos (symbol_ne c hc).2.2,
    Traced.val_bind_of_some (val_nextValue hc h)]
  simp only [shiftRight_and_8, Nat.shiftLeft_eq, Nat.reducePow]

theorem val_decodeThird_pad (h : charAt Data p = some 61) : (decodeThird Data p n r).val = some (r, p) := by
  rw [decodeThird, Traced.val_bind_of_some ((val_readData Data p).trans h)]
  rfl

theorem val_decodeGroup (ha : a < 64) (hb : b < 64) (h₀ : charAt Data p = some (symbol a))
    (h₁ : charAt Data (p + 1) = some (symbol b)) :
    (decodeGroup Data p r).val =
      (decodeThird Data (p + 2) (a * 262144 + b * 4096) (r.push (a * 4 + b / 16))).val := by
  have hfirst : (a * 262144 + b * 4096) / 65536 % 256 = a * 4 + b / 16 := by omega
  rw [decodeGroup, Traced.val_bind_of_some (val_nextValue ha h₀), Traced.val_bind_of_some (val_nextValue hb h₁)]
  simp only [shiftRight_and_16, Nat.shiftLeft_eq, Nat.reducePow, hfirst]

/-- Four symbols give three bytes. -/
theorem val_decodeGroup_four (ha : a < 64) (hb : b < 64) (hc : c < 64) (hd : d < 64)
    (h₀ : charAt Data p = some (symbol a)) (h₁ : charAt Data (p + 1) = some (symbol b))
    (h₂ : charAt Data (p + 2) = some (symbol c)) (h₃ : charAt Data (p + 3) = some (symbol d)) :
    (decodeGroup Data p r).val =
      some (((r.push (a * 4 + b / 16)).push (b % 16 * 16 + c / 4)).push (c % 4 * 64 + d), p + 4) := by
  have hsecond : (a * 262144 + b * 4096 + c * 64) / 256 % 256 = b % 16 * 16 + c / 4 := by omega
  have hthird : (a * 262144 + b * 4096 + c * 64 + d) % 256 = c % 4 * 64 + d := by omega
  rw [val_decodeGroup ha hb h₀ h₁, val_decodeThird hc h₂, val_decodeFourth hd h₃, hsecond, hthird]

theorem val_decodeGroup_three (ha : a < 64) (hb : b < 64) (hc : c < 64)
    (h₀ : charAt Data p = some (symbol a)) (h₁ : charAt Data (p + 1) = some (symbol b))
    (h₂ : charAt Data (p + 2) = some (symbol c)) (h₃ : charAt Data (p + 3) = some 61) :
    (decodeGroup Data p r).val = some ((r.push (a * 4 + b / 16)).push (b % 16 * 16 + c / 4), p + 3) := by
  have hsecond : (a * 262144 + b * 4096 + c * 64) / 256 % 256 = b % 16 * 16 + c / 4 := by omega
  rw [val_decodeGroup ha hb h₀ h₁, val_decodeThird hc h₂, val_decodeFourth_pad h₃, hsecond]

theorem val_decodeGroup_two (ha : a < 64) (hb : b < 64) (h₀ : charAt Data p = some (symbol a))
    (h₁ : charAt Data (p + 1) = some (symbol b)) (h₂ : charAt Data (p + 2) = some 61) :
    (decodeGroup Data p r).val = some (r.push (a * 4 + b / 16), p + 2) := by
  rw [val_decodeGroup ha hb h₀ h₁, val_decodeThird_pad h₂]

end Group

section Loop

variable {Data : List UInt8} {DataByte i : Int} {p fuel : Nat} {r : Decoded}

theorem val_DecodeLoop_done (h : DataByte ≤ i) : (DecodeLoop Data DataByte (fuel + 1) p i r).val = some r := by
  rw [DecodeLoop, if_neg (Int.not_lt.mpr h)]
  rfl

/-- A turn that begins with a symbol takes a group. -/
theorem val_DecodeLoop_group {a : Nat} {g : Decoded × Nat} (hi : i < DataByte) (hmax : i + 4 ≤ INT_MAX) (ha : a < 64)
    (h₀ : charAt Data p = some (symbol a)) (hg : (decodeGroup Data p r).val = some g) :
    (DecodeLoop Data DataByte (fuel + 1) p i r).val = (DecodeLoop Data DataByte fuel g.2 (i + 4) g.1).val := by
  obtain ⟨hcr, hlf, -⟩ := symbol_ne a ha
  rw [DecodeLoop, if_pos hi, Traced.val_bind_of_some ((val_readData Data p).trans h₀), if_pos ⟨hcr, hlf⟩,
    Traced.val_bind_of_some hg, if_neg (Int.not_lt.mpr hmax)]

end Loop

section Encoded

variable {Data cs : List UInt8} {p : Nat}

theorem charAt_of_drop (h : (Data ++ [0]).drop p = cs) (k : Nat) : charAt Data (p + k) = cs[k]? := by
  rw [charAt, ← h, List.getElem?_drop]

theorem charAt_of_drop_cons {c : UInt8} (h : (Data ++ [0]).drop p = c :: cs) : charAt Data p = some c :=
  charAt_of_drop h 0

theorem drop_add (h : (Data ++ [0]).drop p = cs) (k : Nat) : (Data ++ [0]).drop (p + k) = cs.drop k := by
  rw [← h, List.drop_drop]

theorem push_push (r : Decoded) (m n : Nat) :
    (r.push m).push n = ⟨r.strDecode ++ [UInt8.ofNat m, UInt8.ofNat n], r.OutByte + 2⟩ := by
  rw [Decoded.push, Decoded.push, List.append_assoc, Int.add_assoc]
  rfl

theorem push_push_push (r : Decoded) (m n o : Nat) :
    ((r.push m).push n).push o = ⟨r.strDecode ++ [UInt8.ofNat m, UInt8.ofNat n, UInt8.ofNat o], r.OutByte + 3⟩ := by
  rw [push_push, Decoded.push, List.append_assoc, Int.add_assoc]
  rfl

/-- The group of one byte. -/
theorem decodeGroup_one {a : UInt8} (r : Decoded)
    (h : (Data ++ [0]).drop p = symbol (a.toNat / 4) :: symbol (a.toNat % 4 * 16) :: 61 :: cs) :
    (decodeGroup Data p r).val = some (⟨r.strDecode ++ [a], r.OutByte + 1⟩, p + 2) := by
  have ha := a.toNat_lt
  have hfirst : a.toNat / 4 * 4 + a.toNat % 4 * 16 / 16 = a.toNat := by omega
  rw [val_decodeGroup_two (by omega) (by omega) (charAt_of_drop_cons h) (charAt_of_drop h 1) (charAt_of_drop h 2), hfirst,
    Decoded.push, UInt8.ofNat_toNat]

theorem decodeGroup_two {a b : UInt8} (r : Decoded)
    (h : (Data ++ [0]).drop p =
      symbol (a.toNat / 4) :: symbol (a.toNat % 4 * 16 + b.toNat / 16) :: symbol (b.toNat % 16 * 4) :: 61 :: cs) :
    (decodeGroup Data p r).val = some (⟨r.strDecode ++ [a, b], r.OutByte + 2⟩, p + 3) := by
  have ha := a.toNat_lt
  have hb := b.toNat_lt
  have hfirst : a.toNat / 4 * 4 + (a.toNat % 4 * 16 + b.toNat / 16) / 16 = a.toNat := by omega
  have hsecond : (a.toNat % 4 * 16 + b.toNat / 16) % 16 * 16 + b.toNat % 16 * 4 / 4 = b.toNat := by omega
  rw [val_decodeGroup_three (by omega) (by omega) (by omega) (charAt_of_drop_cons h) (charAt_of_drop h 1)
    (charAt_of_drop h 2) (charAt_of_drop h 3), hfirst, hsecond, push_push, UInt8.ofNat_toNat, UInt8.ofNat_toNat]

theorem decodeGroup_triple {a b c : UInt8} (r : Decoded)
    (h : (Data ++ [0]).drop p = symbol (a.toNat / 4) :: symbol (a.toNat % 4 * 16 + b.toNat / 16) ::
      symbol (b.toNat % 16 * 4 + c.toNat / 64) :: symbol (c.toNat % 64) :: cs) :
    (decodeGroup Data p r).val = some (⟨r.strDecode ++ [a, b, c], r.OutByte + 3⟩, p + 4) := by
  have ha := a.toNat_lt
  have hb := b.toNat_lt
  have hc := c.toNat_lt
  have hfirst : a.toNat / 4 * 4 + (a.toNat % 4 * 16 + b.toNat / 16) / 16 = a.toNat := by omega
  have hsecond : (a.toNat % 4 * 16 + b.toNat / 16) % 16 * 16 + (b.toNat % 16 * 4 + c.toNat / 64) / 4 = b.toNat := by
    omega
  have hthird : (b.toNat % 16 * 4 + c.toNat / 64) % 4 * 64 + c.toNat % 64 = c.toNat := by omega
  rw [val_decodeGroup_four (by omega) (by omega) (by omega) (by omega) (charAt_of_drop_cons h) (charAt_of_drop h 1)
    (charAt_of_drop h 2) (charAt_of_drop h 3), hfirst, hsecond, hthird, push_push_push, UInt8.ofNat_toNat,
    UInt8.ofNat_toNat, UInt8.ofNat_toNat]

/-- Where the encoding of `x` begins, the loop gives `x`. -/
theorem val_DecodeLoop_Encode {DataByte : Int} (hmax : DataByte ≤ INT_MAX) : ∀ (x : List UInt8) {p fuel : Nat} {i : Int}
    {r : Decoded}, (Data ++ [0]).drop p = Encode x x.length ++ [0] → i + (Encode x x.length).length = DataByte →
      x.length < fuel → (DecodeLoop Data DataByte fuel p i r).val = some ⟨r.strDecode ++ x, r.OutByte + x.length⟩
  | [], p, fuel + 1, i, r, _, hi, _ => by
    have hlen : i + 0 = DataByte := hi
    rw [val_DecodeLoop_done (by omega), List.append_nil]
    exact congrArg (fun n => some (Decoded.mk r.strDecode n)) (Int.add_zero r.OutByte).symm
  | [a], p, fuel + 2, i, r, hdrop, hi, _ => by
    have hone : Encode [a] ([a].length : Nat) = Encode [a] 1 := rfl
    rw [hone, Encode_one] at hdrop hi
    have hlen : i + 4 = DataByte := hi
    have hsix : a.toNat / 4 < 64 := by
      have ha := a.toNat_lt
      omega
    rw [val_DecodeLoop_group (by omega) (by omega) hsix (charAt_of_drop_cons hdrop)
      (decodeGroup_one r hdrop), val_DecodeLoop_done (by omega)]
    rfl
  | [a, b], p, fuel + 2, i, r, hdrop, hi, _ => by
    have htwo : Encode [a, b] ([a, b].length : Nat) = Encode [a, b] 2 := rfl
    rw [htwo, Encode_two] at hdrop hi
    have hlen : i + 4 = DataByte := hi
    have hsix : a.toNat / 4 < 64 := by
      have ha := a.toNat_lt
      omega
    rw [val_DecodeLoop_group (by omega) (by omega) hsix (charAt_of_drop_cons hdrop)
      (decodeGroup_two r hdrop), val_DecodeLoop_done (by omega)]
    rfl
  | a :: b :: c :: x, p, fuel + 1, i, r, hdrop, hi, hfuel => by
    have hcons : (a :: b :: c :: x).length = x.length + 3 := rfl
    rw [hcons, Encode_triple] at hdrop hi
    rw [hcons] at hfuel ⊢
    have hlen : i + ((Encode x x.length).length + 4 : Nat) = DataByte := hi
    have hsix : a.toNat / 4 < 64 := by
      have ha := a.toNat_lt
      omega
    have ih := @val_DecodeLoop_Encode DataByte hmax x (p + 4) fuel (i + 4)
      ⟨r.strDecode ++ [a, b, c], r.OutByte + 3⟩ (drop_add hdrop 4) (by omega) (by omega)
    rw [val_DecodeLoop_group (by omega) (by omega) hsix (charAt_of_drop_cons hdrop)
      (decodeGroup_triple r hdrop), ih, List.append_assoc]
    have hcount : r.OutByte + 3 + (x.length : Int) = r.OutByte + (x.length + 3 : Nat) := by omega
    exact congrArg (fun n => some (Decoded.mk _ n)) hcount

end Encoded

theorem intOfSize_of_le {n : Nat} (h : (n : Int) ≤ INT_MAX) : intOfSize n = n := by
  unfold INT_MAX at h
  unfold intOfSize
  rw [Int.bmod_eq_of_le] <;> omega

theorem intOfSize_neg {n : Nat} (h : INT_MAX < n) (hlt : n < 4294967296) : intOfSize n < 0 := by
  unfold INT_MAX at h
  have hbmod := Int.bmod_def (x := n) (m := 4294967296)
  unfold intOfSize
  omega

/-- A size that is no `int` becomes smaller by one or more times the number of `unsigned`s. -/
theorem intOfSize_le {n : Nat} (h : INT_MAX < n) : intOfSize n ≤ n - 4294967296 := by
  unfold INT_MAX at h
  have hbmod := Int.bmod_def (x := n) (m := 4294967296)
  unfold intOfSize
  omega

theorem length_encodeTriples_le (n : Nat) (Data : List UInt8) : (encodeTriples n Data).1.length ≤ 4 * n := by
  induction n generalizing Data with
  | zero => exact Nat.le_refl 0
  | succ n ih =>
    match Data with
    | [] => exact Nat.zero_le _
    | [_] => exact Nat.zero_le _
    | [_, _] => exact Nat.zero_le _
    | d₁ :: d₂ :: d₃ :: Data =>
      have hrest := ih Data
      rw [encodeTriples]
      simp only [List.length_cons]
      omega

theorem length_Encode_le (Data : List UInt8) (DataByte : Int) :
    (Encode Data DataByte).length ≤ 4 * (DataByte.tdiv 3).toNat + 4 := by
  have htriples := length_encodeTriples_le (DataByte.tdiv 3).toNat Data
  rw [Encode, List.length_append]
  split
  · simp only [List.length_cons, List.length_nil]
    omega
  · split
    · simp only [List.length_cons, List.length_nil]
      omega
    · simp only [List.length_nil]
      omega

/-- `Encode` of a whole byte string. -/
def encoded (x : List UInt8) : List UInt8 := Encode x (intOfSize x.length)

/-- `Decode` of the encoded string, with `OutByte` zero before, gives the byte string and its
size; and there are four characters for three bytes. -/
def RoundTrips (x : List UInt8) : Prop :=
  (Decode (encoded x) (intOfSize (encoded x).length) 0).val = some ⟨x, x.length⟩ ∧
    (encoded x).length = 4 * ((x.length + 2) / 3)

theorem roundTrips_of_le {x : List UInt8} (h : (4 * ((x.length + 2) / 3) : Nat) ≤ INT_MAX) : RoundTrips x := by
  have hsize : encoded x = Encode x x.length := by
    rw [encoded, intOfSize_of_le]
    omega
  have hlen := length_Encode x
  refine ⟨?_, by rw [hsize, hlen]⟩
  rw [hsize, intOfSize_of_le (by omega), Decode,
    val_DecodeLoop_Encode (by omega) x (List.drop_zero (l := _)) (by omega) (by omega)]
  exact congrArg (fun n => some (Decoded.mk x n)) (Int.zero_add _)

theorem not_roundTrips_of_lt {x : List UInt8} (h : INT_MAX < (4 * ((x.length + 2) / 3) : Nat)) : ¬RoundTrips x := by
  rintro ⟨hval, hlen⟩
  have hmax : INT_MAX = 2147483647 := rfl
  by_cases hx : (x.length : Int) ≤ INT_MAX
  · -- the characters are too many for the decoder, which then takes none of them
    have hneg : intOfSize (encoded x).length < 0 := intOfSize_neg (by omega) (by omega)
    rw [Decode, val_DecodeLoop_done (Int.le_of_lt hneg)] at hval
    have hnil : [] = x := congrArg Decoded.strDecode (Option.some.inj hval)
    have hzero : x.length = 0 := congrArg List.length hnil.symm
    omega
  · -- the bytes are too many for the encoder, which then leaves some out
    have hle := length_Encode_le x (intOfSize x.length)
    have hless := intOfSize_le (Int.not_le.mp hx)
    have hdiv : ((intOfSize x.length).tdiv 3).toNat = 0 ∨
        3 * ((intOfSize x.length).tdiv 3).toNat + 4294967296 ≤ x.length := by
      by_cases hpos : 0 ≤ intOfSize x.length
      · rw [Int.tdiv_eq_ediv_of_nonneg hpos]
        omega
      · have hneg : (intOfSize x.length).tdiv 3 ≤ Int.tdiv 0 3 := Int.tdiv_le_tdiv (by decide) (by omega)
        rw [Int.zero_tdiv] at hneg
        omega
    have hencoded : (encoded x).length ≤ 4 * ((intOfSize x.length).tdiv 3).toNat + 4 := hle
    omega

/-- **Base64.** A byte string comes back from its encoding, with its size, if and only if the
number of characters of the encoding is an `int`. -/
theorem base64_roundTrips_iff (x : List UInt8) : RoundTrips x ↔ (4 * ((x.length + 2) / 3) : Nat) ≤ INT_MAX := by
  refine ⟨fun h => ?_, roundTrips_of_le⟩
  by_contra hlt
  exact not_roundTrips_of_lt (Int.not_le.mp hlt) h

/-- The characters of this one are one more than an `int` can count. -/
theorem not_roundTrips_zeros : ¬RoundTrips (List.replicate 1610612734 0) := by
  apply not_roundTrips_of_lt
  rw [List.length_replicate]
  decide

end Perception.EnDecode.CBase64
