import Perception.Comm.DesSchedule

/-!
# DES blocks are invertible

A round changes one half by a function of the other, which undoes itself, and so does the
swap; decryption makes the same changes in the reverse order.
-/
namespace Perception.Comm

set_option autoImplicit false

open Perception.Lib

def IsBit (b : UInt8) : Prop := b = 0 ∨ b = 1

def IsBits (bits : List UInt8) : Prop := ∀ b ∈ bits, IsBit b

theorem isBit_getD {bits : List UInt8} (h : IsBits bits) (i : Nat) : IsBit (bits.getD i 0) := by
  by_cases hi : i < bits.length
  · rw [List.getD_eq_getElem _ _ hi]
    exact h _ (List.getElem_mem hi)
  · rw [List.getD_eq_default _ _ (Nat.le_of_not_lt hi)]
    exact .inl rfl

theorem isBit_xor {a b : UInt8} (ha : IsBit a) (hb : IsBit b) : IsBit (a ^^^ b) := by
  rcases ha with rfl | rfl
  · rcases hb with rfl | rfl
    · exact .inl rfl
    · exact .inr rfl
  · rcases hb with rfl | rfl
    · exact .inr rfl
    · exact .inl rfl

theorem isBits_set {bits : List UInt8} (h : IsBits bits) {b : UInt8} (hb : IsBit b) (i : Nat) : IsBits (bits.set i b) := by
  intro c hc
  rcases List.mem_or_eq_of_mem_set hc with hc | rfl
  · exact h c hc
  · exact hb

theorem isBits_append {xs ys : List UInt8} : IsBits (xs ++ ys) ↔ IsBits xs ∧ IsBits ys := List.forall_mem_append

theorem isBits_drop {bits : List UInt8} (h : IsBits bits) (n : Nat) : IsBits (bits.drop n) :=
  fun b hb => h b (List.mem_of_mem_drop hb)

theorem isBits_take {bits : List UInt8} (h : IsBits bits) (n : Nat) : IsBits (bits.take n) :=
  fun b hb => h b (List.mem_of_mem_take hb)

theorem isBits_transform (table : List Nat) {bits : List UInt8} (h : IsBits bits) : IsBits (transform table bits) := by
  intro b hb
  obtain ⟨i, -, rfl⟩ := List.mem_map.mp hb
  exact isBit_getD h i

theorem length_transform (table : List Nat) (bits : List UInt8) : (transform table bits).length = table.length :=
  List.length_map _

theorem length_DES_PC1_Transform (key : List UInt8) : (DES_PC1_Transform key).length = 56 := length_transform PC_1 key

theorem isBits_turn {x : List UInt8} (h : IsBits x) (time : Nat) : IsBits (turn x time) := by
  refine isBits_append.mpr ⟨fun b hb => ?_, fun b hb => ?_⟩
  · exact isBits_take h 28 b (List.mem_rotate.mp hb)
  · exact isBits_drop h 28 b (List.mem_rotate.mp hb)

theorem isBits_DES_XOR {R L : List UInt8} (hR : IsBits R) (hL : IsBits L) (count : Nat) : IsBits (DES_XOR R L count) := by
  intro b hb
  obtain ⟨i, hi, rfl⟩ := List.mem_mapIdx.mp hb
  have hcell := hR _ (List.getElem_mem hi)
  split
  · exact isBit_xor hcell (isBit_getD hL i)
  · exact hcell

theorem length_DES_XOR (R L : List UInt8) (count : Nat) : (DES_XOR R L count).length = R.length := List.length_mapIdx

/-- A bit of an output of a box. -/
theorem isBit_output : ∀ output : Fin 256, IsBit ((UInt8.ofNat output &&& 0x08) >>> 3) ∧
    IsBit ((UInt8.ofNat output &&& 0x04) >>> 2) ∧ IsBit ((UInt8.ofNat output &&& 0x02) >>> 1) ∧
    IsBit (UInt8.ofNat output &&& 0x01) := by
  unfold IsBit
  decide +kernel

theorem isBits_sboxTurn {data_a : List UInt8} (h : IsBits data_a) (cnt : Nat) : IsBits (sboxTurn data_a cnt) := by
  have hout (output : UInt8) := isBit_output ⟨output.toNat, output.toNat_lt⟩
  simp only [UInt8.ofNat_toNat] at hout
  unfold sboxTurn
  obtain ⟨h₃, h₂, h₁, h₀⟩ := hout _
  exact isBits_set (isBits_set (isBits_set (isBits_set h h₃ _) h₂ _) h₁ _) h₀ _

theorem isBits_DES_SBOX {data_a : List UInt8} (h : IsBits data_a) : IsBits (DES_SBOX data_a) := by
  unfold DES_SBOX
  generalize List.range 8 = cnts
  induction cnts generalizing data_a with
  | nil => exact h
  | cons cnt cnts ih => exact ih (isBits_sboxTurn h cnt)

/-- The bits of a block. -/
structure IsBlock (bits : List UInt8) : Prop where
  length_eq : bits.length = 64
  isBits : IsBits bits

/-- What a half is changed by. -/
def roundBits (subKeys right : List UInt8) : List UInt8 :=
  DES_P_Transform (DES_SBOX (DES_XOR (DES_E_Transform right) subKeys 48))

theorem mixHalves_eq (subKeys bits : List UInt8) :
    mixHalves subKeys bits = DES_XOR bits (roundBits subKeys (bits.drop 32)) 32 := rfl

theorem isBits_roundBits {subKeys right : List UInt8} (hkey : IsBits subKeys) (hright : IsBits right) :
    IsBits (roundBits subKeys right) := by
  have hsbox := isBits_DES_SBOX (isBits_DES_XOR (isBits_transform E_Table hright) hkey 48)
  exact isBits_append.mpr ⟨isBits_transform P_Table hsbox, isBits_drop hsbox 32⟩

theorem drop_DES_XOR (R L : List UInt8) (count : Nat) : (DES_XOR R L count).drop count = R.drop count := by
  apply List.ext_getElem (by rw [List.length_drop, List.length_drop, length_DES_XOR])
  intro i hi hi'
  have hbehind : ¬count + i < count := by omega
  simp only [List.getElem_drop, DES_XOR, List.getElem_mapIdx, if_neg hbehind]

theorem DES_XOR_DES_XOR (R L : List UInt8) (count : Nat) : DES_XOR (DES_XOR R L count) L count = R := by
  apply List.ext_getElem (by rw [length_DES_XOR, length_DES_XOR])
  intro i hi hi'
  simp only [DES_XOR, List.getElem_mapIdx]
  split
  · rw [UInt8.xor_assoc, UInt8.xor_self, UInt8.xor_zero]
  · rfl

theorem mixHalves_mixHalves (subKeys bits : List UInt8) : mixHalves subKeys (mixHalves subKeys bits) = bits := by
  rw [mixHalves_eq subKeys bits, mixHalves_eq, drop_DES_XOR, DES_XOR_DES_XOR]

theorem DES_Swap_DES_Swap {bits : List UInt8} (h : bits.length = 64) : DES_Swap (DES_Swap bits) = bits := by
  have hright : (bits.drop 32).length = 32 := by rw [List.length_drop, h]
  rw [DES_Swap, DES_Swap, List.drop_left' hright, List.take_left' hright, List.take_append_drop]

/-- The steps of the loops on the bits: a round with a sub-key, or the swap. -/
def bitsStep (bits : List UInt8) : Option (List UInt8) → List UInt8
  | some subKeys => mixHalves subKeys bits
  | none => DES_Swap bits

theorem undoes_bitsStep {t : Option (List UInt8)} (ht : ∀ subKeys, t = some subKeys → IsBits subKeys) :
    Undo.Undoes IsBlock bitsStep bitsStep t := by
  intro bits h
  cases t with
  | some subKeys =>
    refine ⟨⟨(length_DES_XOR _ _ _).trans h.length_eq, ?_⟩, mixHalves_mixHalves subKeys bits⟩
    exact isBits_DES_XOR h.isBits (isBits_roundBits (ht subKeys rfl) (isBits_drop h.isBits 32)) 32
  | none =>
    refine ⟨⟨?_, isBits_append.mpr ⟨isBits_drop h.isBits 32, isBits_take h.isBits 32⟩⟩, DES_Swap_DES_Swap h.length_eq⟩
    rw [bitsStep, DES_Swap, List.length_append, Nat.add_comm, ← List.length_append, List.take_append_drop, h.length_eq]

/-- The steps of a sequence of rounds, with a swap between any two. -/
def rounds (keys : List (List UInt8)) : List (Option (List UInt8)) := (keys.map some).intersperse none

theorem rounds_reverse (keys : List (List UInt8)) : rounds keys.reverse = (rounds keys).reverse := by
  rw [rounds, rounds, List.map_reverse, Undo.reverse_intersperse]

theorem desLoop_eq (rotate : Nat → List UInt8 → List UInt8) (n : Nat) : ∀ (s : Nat) (temp bits : List UInt8), s + n = 16 →
    desLoop rotate (List.range' s n) temp bits = (rounds (subKeyList rotate (List.range' s n) temp)).foldl bitsStep bits := by
  induction n with
  | zero => exact fun s temp bits _ => rfl
  | succ n ih =>
    intro s temp bits hs
    rw [List.range'_succ, desLoop, ih (s + 1) _ _ (by omega), subKeyList]
    cases n with
    | zero =>
      have hlast : s = 15 := by omega
      rw [if_neg (not_not.mpr hlast)]
      rfl
    | succ n =>
      have hnot : s ≠ 15 := by omega
      rw [if_pos hnot, List.range'_succ]
      rfl

theorem length_charBits (n : Nat) (ch : UInt8) : (charBits n ch).length = n := by
  induction n generalizing ch with
  | zero => rfl
  | succ n ih => rw [charBits, List.length_cons, ih]

theorem isBits_charBits (n : Nat) (ch : UInt8) : IsBits (charBits n ch) := by
  induction n generalizing ch with
  | zero => exact nofun
  | succ n ih =>
    refine List.forall_mem_cons.mpr ⟨?_, ih _⟩
    split
    · exact .inr rfl
    · exact .inl rfl

theorem bitsChar_bytes : ∀ n : Fin 256, bitsChar (charBits 8 (UInt8.ofNat n)) = UInt8.ofNat n := by decide +kernel

theorem bitsChar_charBits (ch : UInt8) : bitsChar (charBits 8 ch) = ch := by
  have hbyte := bitsChar_bytes ⟨ch.toNat, ch.toNat_lt⟩
  simpa only [UInt8.ofNat_toNat] using hbyte

theorem charBits_eight : ∀ a ∈ [0, 1], ∀ b ∈ [0, 1], ∀ c ∈ [0, 1], ∀ d ∈ [0, 1], ∀ e ∈ [0, 1], ∀ f ∈ [0, 1],
    ∀ g ∈ [0, 1], ∀ h ∈ [0, 1], charBits 8 (bitsChar [a, b, c, d, e, f, g, h]) = [a, b, c, d, e, f, g, h] := by
  decide +kernel

theorem IsBit.mem {b : UInt8} (h : IsBit b) : b ∈ ([0, 1] : List UInt8) := by
  rcases h with rfl | rfl
  · exact List.mem_cons_self
  · exact List.mem_cons_of_mem _ List.mem_cons_self

theorem charBits_bitsChar : ∀ {bits : List UInt8}, bits.length = 8 → IsBits bits → charBits 8 (bitsChar bits) = bits
  | [a, b, c, d, e, f, g, h], _, hbits => by
    simp only [IsBits, List.forall_mem_cons] at hbits
    obtain ⟨ha, hb, hc, hd, he, hf, hg, hh, -⟩ := hbits
    exact charBits_eight a ha.mem b hb.mem c hc.mem d hd.mem e he.mem f hf.mem g hg.mem h hh.mem

theorem isBits_Char8ToBit64 (ch : List UInt8) : IsBits (Char8ToBit64 ch) := by
  intro b hb
  obtain ⟨c, -, hc⟩ := List.mem_flatMap.mp hb
  exact isBits_charBits 8 c b hc

theorem bitsChars_flatMap (ch : List UInt8) : bitsChars ch.length (Char8ToBit64 ch) = ch := by
  induction ch with
  | nil => rfl
  | cons c ch ih =>
    have hlen := length_charBits 8 c
    rw [List.length_cons, Char8ToBit64, List.flatMap_cons, bitsChars, List.take_left' hlen, List.drop_left' hlen,
      bitsChar_charBits]
    exact congrArg (c :: ·) ih

theorem flatMap_bitsChars (n : Nat) {bits : List UInt8} (hlen : bits.length = 8 * n) (hbits : IsBits bits) :
    Char8ToBit64 (bitsChars n bits) = bits := by
  induction n generalizing bits with
  | zero => exact (List.eq_nil_of_length_eq_zero hlen).symm
  | succ n ih =>
    have hfirst : (bits.take 8).length = 8 := by
      rw [List.length_take]
      omega
    have hrest : (bits.drop 8).length = 8 * n := by
      rw [List.length_drop]
      omega
    have hcons : Char8ToBit64 (bitsChars (n + 1) bits) =
        charBits 8 (bitsChar (bits.take 8)) ++ Char8ToBit64 (bitsChars n (bits.drop 8)) := List.flatMap_cons ..
    rw [hcons, charBits_bitsChar hfirst (isBits_take hbits 8), ih hrest (isBits_drop hbits 8), List.take_append_drop]

theorem length_bitsChars (n : Nat) (bits : List UInt8) : (bitsChars n bits).length = n := by
  induction n generalizing bits with
  | zero => rfl
  | succ n ih => rw [bitsChars, List.length_cons, ih]

theorem transform_transform {table table' : List Nat} {n : Nat} {bits : List UInt8} (hlen : bits.length = n)
    (htable : table.map (fun i => table'.getD i n) = List.range n) (hlt : ∀ i ∈ table, i < table'.length) :
    transform table (transform table' bits) = bits := by
  have hcell : ∀ i ∈ table, (transform table' bits).getD i 0 = bits.getD (table'.getD i n) 0 := by
    intro i hi
    rw [List.getD_eq_getElem _ _ (by rw [length_transform]; exact hlt i hi), List.getD_eq_getElem _ _ (hlt i hi)]
    exact List.getElem_map _
  have hmap : transform table (transform table' bits) =
      (table.map fun i => table'.getD i n).map fun i => bits.getD i 0 := by
    rw [List.map_map]
    exact List.map_congr_left hcell
  rw [hmap, htable]
  apply List.ext_getElem (by rw [List.length_map, List.length_range, hlen])
  intro i hi hi'
  rw [List.getElem_map, List.getElem_range, List.getD_eq_getElem _ _ hi']

theorem IP_1_IP {bits : List UInt8} (h : bits.length = 64) : DES_IP_1_Transform (DES_IP_Transform bits) = bits :=
  transform_transform h (by decide) (by decide)

theorem IP_IP_1 {bits : List UInt8} (h : bits.length = 64) : DES_IP_Transform (DES_IP_1_Transform bits) = bits :=
  transform_transform h (by decide) (by decide)

/-- A block through a sequence of steps. -/
def through (steps : List (Option (List UInt8))) (block : List UInt8) : List UInt8 :=
  Bit64ToChar8 (DES_IP_1_Transform (steps.foldl bitsStep (DES_IP_Transform (Char8ToBit64 block))))

theorem isBlock_IP (block : List UInt8) : IsBlock (DES_IP_Transform (Char8ToBit64 block)) :=
  ⟨length_transform IP_Table _, isBits_transform IP_Table (isBits_Char8ToBit64 block)⟩

/-- Steps in the reverse order give the block back. -/
theorem through_reverse {steps : List (Option (List UInt8))} (h : ∀ t ∈ steps, Undo.Undoes IsBlock bitsStep bitsStep t)
    {block : List UInt8} (hlen : block.length = 8) : through steps.reverse (through steps block) = block := by
  have hstart := isBlock_IP block
  have hend : IsBlock (steps.foldl bitsStep (DES_IP_Transform (Char8ToBit64 block))) := Undo.valid_foldl h hstart
  have hbits : (Char8ToBit64 block).length = 64 := by
    rw [Char8ToBit64, List.length_flatMap]
    simp only [length_charBits, List.map_const', hlen]
    rfl
  have hsplit : Char8ToBit64 (through steps block) =
      DES_IP_1_Transform (steps.foldl bitsStep (DES_IP_Transform (Char8ToBit64 block))) :=
    flatMap_bitsChars 8 (length_transform IP_1_Table _) (isBits_transform IP_1_Table hend.isBits)
  have hjoin : Bit64ToChar8 (Char8ToBit64 block) = block := by
    have hchars := bitsChars_flatMap block
    rwa [hlen] at hchars
  rw [through, hsplit, IP_IP_1 hend.length_eq, Undo.foldl_undo h hstart, IP_1_IP hbits, hjoin]

/-- The sub-keys in the order of encryption. -/
def desKeys (keyStr : List UInt8) : List (List UInt8) :=
  (Undo.states turn (DES_PC1_Transform (Char8ToBit64 keyStr)) encryptMoves).map DES_PC2_Transform

theorem encrypt_subKeys (mem : Nat → UInt8) (keyStr : List UInt8) :
    subKeyList (encryptRotate mem) (List.range 16) (DES_PC1_Transform (Char8ToBit64 keyStr)) = desKeys keyStr := by
  have hmoves : (List.range 16).map (fun cnt => encryptMoves.getD cnt 0) = encryptMoves := by decide
  rw [subKeyList_eq, states_rotate length_turn (encryptRotate_eq mem) (length_DES_PC1_Transform _), hmoves, desKeys]

theorem decrypt_subKeys (mem : Nat → UInt8) (keyStr : List UInt8) :
    subKeyList (decryptRotate mem) (List.range 16) (DES_PC1_Transform (Char8ToBit64 keyStr)) = (desKeys keyStr).reverse := by
  rw [subKeyList_reverse mem mem (length_DES_PC1_Transform _), encrypt_subKeys]

theorem encrypt_des_eq (mem : Nat → UInt8) (block keyStr : List UInt8) :
    encrypt_des mem block keyStr = through (rounds (desKeys keyStr)) block := by
  have hrange : List.range 16 = List.range' 0 16 := List.range_eq_range'
  rw [encrypt_des, through, ← encrypt_subKeys mem, hrange, desLoop_eq _ 16 0 _ _ rfl]

theorem decrypt_des_eq (mem : Nat → UInt8) (block keyStr : List UInt8) :
    decrypt_des mem block keyStr = through (rounds (desKeys keyStr)).reverse block := by
  have hrange : List.range 16 = List.range' 0 16 := List.range_eq_range'
  rw [decrypt_des, through, ← rounds_reverse, ← decrypt_subKeys mem, hrange, desLoop_eq _ 16 0 _ _ rfl]

theorem undoes_rounds (keyStr : List UInt8) :
    ∀ t ∈ rounds (desKeys keyStr), Undo.Undoes IsBlock bitsStep bitsStep t := by
  intro t ht
  apply undoes_bitsStep
  intro subKeys hkey
  have hmem : some subKeys ∈ (desKeys keyStr).map some := by
    rcases Undo.mem_of_mem_intersperse (hkey ▸ ht) with hnone | hmem
    · cases hnone
    · exact hmem
  obtain ⟨k, hk, hsome⟩ := List.mem_map.mp hmem
  obtain rfl := Option.some.inj hsome
  obtain ⟨temp, htemp, rfl⟩ := List.mem_map.mp hk
  have hstart : IsBits (DES_PC1_Transform (Char8ToBit64 keyStr)) := isBits_transform PC_1 (isBits_Char8ToBit64 keyStr)
  have hstates : ∀ x ∈ Undo.states turn (DES_PC1_Transform (Char8ToBit64 keyStr)) encryptMoves, IsBits x :=
    Undo.forall_mem_states (fun x time hx => isBits_turn hx time) hstart
  exact isBits_transform PC_2 (hstates temp htemp)

theorem length_encrypt_des (mem : Nat → UInt8) (block keyStr : List UInt8) : (encrypt_des mem block keyStr).length = 8 :=
  length_bitsChars 8 _

theorem length_decrypt_des (mem : Nat → UInt8) (block keyStr : List UInt8) : (decrypt_des mem block keyStr).length = 8 :=
  length_bitsChars 8 _

theorem decrypt_encrypt (mem mem' : Nat → UInt8) (keyStr : List UInt8) {block : List UInt8} (h : block.length = 8) :
    decrypt_des mem' (encrypt_des mem block keyStr) keyStr = block := by
  rw [encrypt_des_eq, decrypt_des_eq, through_reverse (undoes_rounds keyStr) h]

theorem encrypt_decrypt (mem mem' : Nat → UInt8) (keyStr : List UInt8) {block : List UInt8} (h : block.length = 8) :
    encrypt_des mem (decrypt_des mem' block keyStr) keyStr = block := by
  have hback := through_reverse (fun t ht => undoes_rounds keyStr t (List.mem_reverse.mp ht)) h
  rw [List.reverse_reverse] at hback
  rw [encrypt_des_eq, decrypt_des_eq, hback]

/-- **DES.** Each of encryption and decryption undoes the other on every block, whatever is
beside the key, and the sub-keys of one are those of the other in reverse. -/
theorem des_inverse (mem mem' : Nat → UInt8) (block keyStr : List UInt8) (hblock : block.length = 8) :
    decrypt_des mem' (encrypt_des mem block keyStr) keyStr = block ∧
      encrypt_des mem (decrypt_des mem' block keyStr) keyStr = block ∧
      subKeyList (decryptRotate mem') (List.range 16) (DES_PC1_Transform (Char8ToBit64 keyStr)) =
        (subKeyList (encryptRotate mem) (List.range 16) (DES_PC1_Transform (Char8ToBit64 keyStr))).reverse :=
  ⟨decrypt_encrypt mem mem' keyStr hblock, encrypt_decrypt mem mem' keyStr hblock,
    subKeyList_reverse mem mem' (length_DES_PC1_Transform _)⟩

theorem des_inverse_zeros : (List.replicate 8 (0 : UInt8)).length = 8 ∧
    decrypt_des (fun _ => 1) (encrypt_des (fun _ => 0) (List.replicate 8 0) (List.replicate 8 5)) (List.replicate 8 5) =
      List.replicate 8 0 :=
  ⟨List.length_replicate,
    (des_inverse (fun _ => 0) (fun _ => 1) (List.replicate 8 0) (List.replicate 8 5) List.length_replicate).1⟩

end Perception.Comm
