import Perception.Comm.DesInverse

/-!
# 3DES messages

The first byte of a buffer is the length of the message behind it, and `encrypt_3des` rounds it
up to whole blocks. The rounded length of a message of 249 bytes or more is 256, which is 0 in
a byte, so that `decrypt_3des` finds no block.
-/
namespace Perception.Comm

set_option autoImplicit false

/-- A call on the eight bytes at `k`. -/
def onBlock (f : List UInt8 → List UInt8) (k : Nat) (inoutdata : List UInt8) : List UInt8 :=
  inoutdata.take k ++ f ((inoutdata.drop k).take 8) ++ inoutdata.drop (k + 8)

/-- A turn of the loop of `encrypt_3des`; `mem` is for each of its calls. -/
def encryptTurn (mem : Nat → Nat → UInt8) (uszkeytmp uszkeytmp1 : List UInt8) (k : Nat) (inoutdata : List UInt8) :
    List UInt8 :=
  let inoutdata := onBlock (encrypt_des (mem 0) · uszkeytmp) k inoutdata
  let inoutdata := onBlock (decrypt_des (mem 1) · uszkeytmp1) k inoutdata
  onBlock (encrypt_des (mem 2) · uszkeytmp) k inoutdata

def decryptTurn (mem : Nat → Nat → UInt8) (uszkeytmp uszkeytmp1 : List UInt8) (k : Nat) (inoutdata : List UInt8) :
    List UInt8 :=
  let inoutdata := onBlock (decrypt_des (mem 0) · uszkeytmp) k inoutdata
  let inoutdata := onBlock (encrypt_des (mem 1) · uszkeytmp1) k inoutdata
  onBlock (decrypt_des (mem 2) · uszkeytmp) k inoutdata

/-- The loop over `i` blocks, from `k` on. -/
def blockLoop (turn : Nat → Nat → List UInt8 → List UInt8) : Nat → Nat → Nat → List UInt8 → List UInt8
  | 0, _, _, inoutdata => inoutdata
  | i + 1, j, k, inoutdata => blockLoop turn i (j + 1) (k + 8) (turn j k inoutdata)

/-- The buffer with its padding and its new length, and the number of the blocks. -/
def padMessage (inoutdata : List UInt8) : List UInt8 × UInt8 :=
  let i := inoutdata.getD 0 0
  if i % 8 ≠ 0 then
    let inoutdata := inoutdata.set (i.toNat + 1) 0x80
    let i := i / 8 + 1
    (inoutdata.set 0 (i * 8), i)
  else (inoutdata, i / 8)

def encrypt_3des (mem : Nat → Nat → Nat → UInt8) (inoutdata keyStr : List UInt8) : List UInt8 :=
  let uszkeytmp := keyStr.take 8
  let uszkeytmp1 := (keyStr.drop 8).take 8
  let (inoutdata, i) := padMessage inoutdata
  blockLoop (fun j => encryptTurn (mem j) uszkeytmp uszkeytmp1) i.toNat 0 1 inoutdata

def decrypt_3des (mem : Nat → Nat → Nat → UInt8) (inoutdata keyStr : List UInt8) : List UInt8 :=
  let uszkeytmp := keyStr.take 8
  let uszkeytmp1 := (keyStr.drop 8).take 8
  let i := inoutdata.getD 0 0
  blockLoop (fun j => decryptTurn (mem j) uszkeytmp uszkeytmp1) (i / 8).toNat 0 1 inoutdata

/-- A cipher on the first `n` blocks. -/
def mapBlocks (f : List UInt8 → List UInt8) : Nat → List UInt8 → List UInt8
  | 0, body => body
  | n + 1, body => f (body.take 8) ++ mapBlocks f n (body.drop 8)

/-- A function of blocks. -/
def OfBlocks (f : List UInt8 → List UInt8) : Prop := ∀ block, (f block).length = 8

/-- The blocks of a message are given back one by one. -/
theorem mapBlocks_mapBlocks {f g : List UInt8 → List UInt8} (hf : OfBlocks f)
    (h : ∀ block : List UInt8, block.length = 8 → g (f block) = block) (n : Nat) {body : List UInt8}
    (hlen : 8 * n ≤ body.length) : mapBlocks g n (mapBlocks f n body) = body := by
  induction n generalizing body with
  | zero => rfl
  | succ n ih =>
    have hfirst : (body.take 8).length = 8 := by
      rw [List.length_take]
      omega
    have hrest : 8 * n ≤ (body.drop 8).length := by
      rw [List.length_drop]
      omega
    rw [mapBlocks, mapBlocks, List.take_left' (hf _), List.drop_left' (hf _), h _ hfirst, ih hrest,
      List.take_append_drop]

/-- The first `len` bytes stay as they are when in each block the bytes among them do. -/
theorem take_mapBlocks_iff {f : List UInt8 → List UInt8} (hf : OfBlocks f) (n : Nat) {body : List UInt8} {len : Nat}
    (hn : len ≤ 8 * n) (hlen : 8 * n ≤ body.length) :
    (mapBlocks f n body).take len = body.take len ↔
      ∀ j < n, (f ((body.drop (8 * j)).take 8)).take (len - 8 * j) = ((body.drop (8 * j)).take 8).take (len - 8 * j) := by
  induction n generalizing body len with
  | zero =>
    obtain rfl : len = 0 := by omega
    exact ⟨nofun, fun _ => rfl⟩
  | succ n ih =>
    have hfirst : (body.take 8).length = 8 := by
      rw [List.length_take]
      omega
    have hrest : 8 * n ≤ (body.drop 8).length := by
      rw [List.length_drop]
      omega
    have hnext (j : Nat) : (body.drop 8).drop (8 * j) = body.drop (8 * (j + 1)) := by
      rw [List.drop_drop]
      congr 1
      omega
    have hcount (j : Nat) : len - 8 - 8 * j = len - 8 * (j + 1) := by omega
    have htail := ih (by omega : len - 8 ≤ 8 * n) hrest
    simp only [hnext, hcount] at htail
    have hsplit : body.take len = (body.take 8).take len ++ (body.drop 8).take (len - 8) := by
      conv_lhs => rw [← List.take_append_drop 8 body]
      rw [List.take_append, hfirst]
    have hequal : ((f (body.take 8)).take len).length = ((body.take 8).take len).length := by
      rw [List.length_take, List.length_take, hf, hfirst]
    rw [mapBlocks, List.take_append, hf, hsplit]
    constructor
    · intro heq j hj
      obtain ⟨hzero, hsucc⟩ := List.append_inj heq hequal
      cases j with
      | zero => exact hzero
      | succ j => exact htail.mp hsucc j (by omega)
    · intro hall
      have hzero : (f (body.take 8)).take len = (body.take 8).take len := hall 0 (by omega)
      have hsucc := htail.mpr fun j hj => hall (j + 1) (by omega)
      rw [hzero, hsucc]

theorem onBlock_append (f : List UInt8 → List UInt8) (pre body : List UInt8) :
    onBlock f pre.length (pre ++ body) = pre ++ (f (body.take 8) ++ body.drop 8) := by
  rw [onBlock, List.take_left, List.drop_left, List.drop_append, List.append_assoc, Nat.add_sub_cancel_left,
    List.drop_eq_nil_of_le (Nat.le_add_right _ _), List.nil_append]

theorem onBlock_onBlock {f g : List UInt8 → List UInt8} (hf : OfBlocks f) (pre body : List UInt8) :
    onBlock g pre.length (onBlock f pre.length (pre ++ body)) = onBlock (fun block => g (f block)) pre.length (pre ++ body) := by
  rw [onBlock_append, onBlock_append, onBlock_append, List.take_left' (hf _), List.drop_left' (hf _)]

/-- A loop whose turns are a cipher on the block at `k`. -/
theorem blockLoop_eq {turn : Nat → Nat → List UInt8 → List UInt8} {f : List UInt8 → List UInt8} (hf : OfBlocks f)
    (h : ∀ (j : Nat) (pre body : List UInt8), turn j pre.length (pre ++ body) = pre ++ (f (body.take 8) ++ body.drop 8))
    (n j : Nat) (pre body : List UInt8) : blockLoop turn n j pre.length (pre ++ body) = pre ++ mapBlocks f n body := by
  induction n generalizing j pre body with
  | zero => rfl
  | succ n ih =>
    have hnext := ih (j + 1) (pre ++ f (body.take 8)) (body.drop 8)
    rw [List.length_append, hf] at hnext
    rw [blockLoop, h, ← List.append_assoc, hnext, mapBlocks, List.append_assoc]

/-- What `encrypt_3des` does to a block. -/
def encryptBlock (mem : Nat → Nat → UInt8) (keyStr block : List UInt8) : List UInt8 :=
  encrypt_des (mem 2) (decrypt_des (mem 1) (encrypt_des (mem 0) block (keyStr.take 8)) ((keyStr.drop 8).take 8)) (keyStr.take 8)

def decryptBlock (mem : Nat → Nat → UInt8) (keyStr block : List UInt8) : List UInt8 :=
  decrypt_des (mem 2) (encrypt_des (mem 1) (decrypt_des (mem 0) block (keyStr.take 8)) ((keyStr.drop 8).take 8)) (keyStr.take 8)

theorem length_encryptBlock (mem : Nat → Nat → UInt8) (keyStr : List UInt8) : OfBlocks (encryptBlock mem keyStr) :=
  fun _ => length_encrypt_des _ _ _

theorem length_decryptBlock (mem : Nat → Nat → UInt8) (keyStr : List UInt8) : OfBlocks (decryptBlock mem keyStr) :=
  fun _ => length_decrypt_des _ _ _

theorem encryptBlock_mem (mem mem' : Nat → Nat → UInt8) (keyStr : List UInt8) :
    encryptBlock mem keyStr = encryptBlock mem' keyStr := by
  funext block
  simp only [encryptBlock, encrypt_des_eq, decrypt_des_eq]

theorem decryptBlock_mem (mem mem' : Nat → Nat → UInt8) (keyStr : List UInt8) :
    decryptBlock mem keyStr = decryptBlock mem' keyStr := by
  funext block
  simp only [decryptBlock, encrypt_des_eq, decrypt_des_eq]

theorem decryptBlock_encryptBlock (mem mem' : Nat → Nat → UInt8) (keyStr : List UInt8) {block : List UInt8}
    (h : block.length = 8) : decryptBlock mem' keyStr (encryptBlock mem keyStr block) = block := by
  rw [decryptBlock, encryptBlock, decrypt_encrypt _ _ _ (length_decrypt_des _ _ _),
    encrypt_decrypt _ _ _ (length_encrypt_des _ _ _), decrypt_encrypt _ _ _ h]

theorem onBlock_three {f g h : List UInt8 → List UInt8} (hf : OfBlocks f) (hg : OfBlocks g) (pre body : List UInt8) :
    onBlock h pre.length (onBlock g pre.length (onBlock f pre.length (pre ++ body))) =
      pre ++ (h (g (f (body.take 8))) ++ body.drop 8) := by
  rw [onBlock_onBlock hf, onBlock_onBlock fun _ => hg _, onBlock_append]

theorem ofBlocks_encrypt_des (mem : Nat → UInt8) (keyStr : List UInt8) : OfBlocks (encrypt_des mem · keyStr) :=
  fun block => length_encrypt_des mem block keyStr

theorem ofBlocks_decrypt_des (mem : Nat → UInt8) (keyStr : List UInt8) : OfBlocks (decrypt_des mem · keyStr) :=
  fun block => length_decrypt_des mem block keyStr

theorem encryptTurn_eq (mem : Nat → Nat → UInt8) (keyStr pre body : List UInt8) :
    encryptTurn mem (keyStr.take 8) ((keyStr.drop 8).take 8) pre.length (pre ++ body) =
      pre ++ (encryptBlock mem keyStr (body.take 8) ++ body.drop 8) :=
  onBlock_three (h := (encrypt_des (mem 2) · (keyStr.take 8))) (ofBlocks_encrypt_des (mem 0) (keyStr.take 8))
    (ofBlocks_decrypt_des (mem 1) ((keyStr.drop 8).take 8)) pre body

theorem decryptTurn_eq (mem : Nat → Nat → UInt8) (keyStr pre body : List UInt8) :
    decryptTurn mem (keyStr.take 8) ((keyStr.drop 8).take 8) pre.length (pre ++ body) =
      pre ++ (decryptBlock mem keyStr (body.take 8) ++ body.drop 8) :=
  onBlock_three (h := (decrypt_des (mem 2) · (keyStr.take 8))) (ofBlocks_decrypt_des (mem 0) (keyStr.take 8))
    (ofBlocks_encrypt_des (mem 1) ((keyStr.drop 8).take 8)) pre body

/-- The blocks of a message of `len` bytes, as `encrypt_3des` counts them. -/
def blockCount (len : UInt8) : UInt8 := if len % 8 ≠ 0 then len / 8 + 1 else len / 8

def padBody (len : UInt8) (body : List UInt8) : List UInt8 := if len % 8 ≠ 0 then body.set len.toNat 0x80 else body

theorem mul_blockCount {len : UInt8} (h : len % 8 = 0) : len / 8 * 8 = len := by
  have hmod : len.toNat % 8 = 0 := by simpa using congrArg UInt8.toNat h
  apply UInt8.toNat_inj.mp
  rw [UInt8.toNat_mul, UInt8.toNat_div]
  have hlt := len.toNat_lt
  change len.toNat / 8 * 8 % 256 = len.toNat
  omega

theorem padMessage_cons (len : UInt8) (body : List UInt8) :
    padMessage (len :: body) = (blockCount len * 8 :: padBody len body, blockCount len) := by
  unfold padMessage blockCount padBody
  by_cases h : len % 8 = 0
  · simp [h, mul_blockCount h]
  · simp [h]

theorem toNat_blockCount (len : UInt8) : (blockCount len).toNat = (len.toNat + 7) / 8 := by
  have hlt := len.toNat_lt
  unfold blockCount
  split
  · next h =>
    have hmod : len.toNat % 8 ≠ 0 := fun hzero => h (UInt8.toNat_inj.mp (by simpa using hzero))
    rw [UInt8.toNat_add, UInt8.toNat_div]
    change (len.toNat / 8 + 1) % 256 = (len.toNat + 7) / 8
    omega
  · next h =>
    have hmod : len.toNat % 8 = 0 := by simpa using congrArg UInt8.toNat (not_not.mp h)
    rw [UInt8.toNat_div]
    change len.toNat / 8 = (len.toNat + 7) / 8
    omega

theorem length_padBody (len : UInt8) (body : List UInt8) : (padBody len body).length = body.length := by
  unfold padBody
  split
  · exact List.length_set
  · rfl

/-- The padding is behind the message. -/
theorem take_padBody (len : UInt8) (body : List UInt8) : (padBody len body).take len.toNat = body.take len.toNat := by
  unfold padBody
  split
  · exact List.take_set_of_le (Nat.le_refl _)
  · rfl

theorem encrypt_3des_cons (mem : Nat → Nat → Nat → UInt8) (len : UInt8) (body keyStr : List UInt8) :
    encrypt_3des mem (len :: body) keyStr =
      blockCount len * 8 :: mapBlocks (encryptBlock (mem 0) keyStr) (blockCount len).toNat (padBody len body) := by
  have hturn (j : Nat) (pre body : List UInt8) :
      encryptTurn (mem j) (keyStr.take 8) ((keyStr.drop 8).take 8) pre.length (pre ++ body) =
        pre ++ (encryptBlock (mem 0) keyStr (body.take 8) ++ body.drop 8) := by
    rw [encryptTurn_eq, encryptBlock_mem (mem j) (mem 0)]
  unfold encrypt_3des
  rw [padMessage_cons]
  exact blockLoop_eq (length_encryptBlock (mem 0) keyStr) hturn (blockCount len).toNat 0 [blockCount len * 8] (padBody len body)

theorem decrypt_3des_cons (mem : Nat → Nat → Nat → UInt8) (len : UInt8) (body keyStr : List UInt8) :
    decrypt_3des mem (len :: body) keyStr = len :: mapBlocks (decryptBlock (mem 0) keyStr) (len.toNat / 8) body := by
  have hturn (j : Nat) (pre body : List UInt8) :
      decryptTurn (mem j) (keyStr.take 8) ((keyStr.drop 8).take 8) pre.length (pre ++ body) =
        pre ++ (decryptBlock (mem 0) keyStr (body.take 8) ++ body.drop 8) := by
    rw [decryptTurn_eq, decryptBlock_mem (mem j) (mem 0)]
  have hcount : (len / 8).toNat = len.toNat / 8 := UInt8.toNat_div len 8
  unfold decrypt_3des
  rw [← hcount]
  exact blockLoop_eq (length_decryptBlock (mem 0) keyStr) hturn (len / 8).toNat 0 [len] body

/-- The blocks that `decrypt_3des` finds. -/
theorem toNat_rounded (len : UInt8) : (blockCount len * 8).toNat / 8 = if len.toNat ≤ 248 then (blockCount len).toNat else 0 := by
  have hlt := len.toNat_lt
  have hcount := toNat_blockCount len
  rw [UInt8.toNat_mul]
  change (blockCount len).toNat * 8 % 256 / 8 = _
  split <;> omega

/-- The `j`-th block that `encrypt_3des` encrypts. -/
def blockAt (inoutdata : List UInt8) (j : Nat) : List UInt8 := ((padMessage inoutdata).1.drop (1 + 8 * j)).take 8

/-- The message is behind its length again, after a buffer was encrypted and decrypted. -/
def Restored (mem mem' : Nat → Nat → Nat → UInt8) (inoutdata keyStr : List UInt8) : Prop :=
  let len := (inoutdata.getD 0 0).toNat
  ((decrypt_3des mem' (encrypt_3des mem inoutdata keyStr) keyStr).drop 1).take len = (inoutdata.drop 1).take len

/-- In each of the blocks the bytes of the message are what the cipher makes of them. -/
def Unchanged (mem : Nat → Nat → Nat → UInt8) (inoutdata keyStr : List UInt8) : Prop :=
  let len := (inoutdata.getD 0 0).toNat
  ∀ j < 32, (encryptBlock (mem j) keyStr (blockAt inoutdata j)).take (len - 8 * j) = (blockAt inoutdata j).take (len - 8 * j)

theorem restored_cons (mem mem' : Nat → Nat → Nat → UInt8) (len : UInt8) (body keyStr : List UInt8) :
    Restored mem mem' (len :: body) keyStr ↔
      (mapBlocks (decryptBlock (mem' 0) keyStr) (if len.toNat ≤ 248 then (blockCount len).toNat else 0)
        (mapBlocks (encryptBlock (mem 0) keyStr) (blockCount len).toNat (padBody len body))).take len.toNat =
          (padBody len body).take len.toNat := by
  unfold Restored
  simp only [List.getD_cons_zero]
  rw [encrypt_3des_cons, decrypt_3des_cons, toNat_rounded, take_padBody len body]
  rfl

theorem restored_short (mem mem' : Nat → Nat → Nat → UInt8) {len : UInt8} {body : List UInt8} (keyStr : List UInt8)
    (hshort : len.toNat ≤ 248) (hlen : 248 ≤ body.length) : Restored mem mem' (len :: body) keyStr := by
  have hcount := toNat_blockCount len
  have hbody := length_padBody len body
  rw [restored_cons, if_pos hshort, mapBlocks_mapBlocks (length_encryptBlock _ _)
    (fun _ h => decryptBlock_encryptBlock _ _ keyStr h) _ (by omega)]

/-- No block is decrypted. -/
theorem restored_long_iff (mem mem' : Nat → Nat → Nat → UInt8) {len : UInt8} {body : List UInt8} (keyStr : List UInt8)
    (hlong : ¬len.toNat ≤ 248) (hlen : 256 ≤ body.length) :
    Restored mem mem' (len :: body) keyStr ↔ Unchanged mem (len :: body) keyStr := by
  have hlt := len.toNat_lt
  have hcount := toNat_blockCount len
  have hbody := length_padBody len body
  have hall : (blockCount len).toNat = 32 := by omega
  have hblock (j : Nat) : blockAt (len :: body) j = ((padBody len body).drop (8 * j)).take 8 := by
    rw [blockAt, padMessage_cons, Nat.add_comm, List.drop_succ_cons]
  have hmem (j : Nat) : encryptBlock (mem j) keyStr = encryptBlock (mem 0) keyStr := encryptBlock_mem _ _ keyStr
  unfold Unchanged
  simp only [List.getD_cons_zero, hblock, hmem]
  rw [restored_cons, if_neg hlong, mapBlocks, hall,
    take_mapBlocks_iff (length_encryptBlock _ _) 32 (by omega) (by omega)]

/-- **Messages.** A message is restored when its rounded length is a byte. A longer one stays
encrypted, and is restored only if its blocks are not changed by the cipher. -/
theorem restored_iff (mem mem' : Nat → Nat → Nat → UInt8) (inoutdata keyStr : List UInt8) (hlen : 257 ≤ inoutdata.length) :
    Restored mem mem' inoutdata keyStr ↔ (inoutdata.getD 0 0).toNat ≤ 248 ∨ Unchanged mem inoutdata keyStr := by
  obtain ⟨len, body, rfl⟩ : ∃ len body, inoutdata = len :: body := List.exists_cons_of_length_pos (by omega)
  rw [List.length_cons] at hlen
  rw [List.getD_cons_zero]
  by_cases hshort : len.toNat ≤ 248
  · exact ⟨fun _ => .inl hshort, fun _ => restored_short mem mem' keyStr hshort (by omega)⟩
  · rw [restored_long_iff mem mem' keyStr hshort (by omega)]
    exact ⟨.inr, fun h => h.resolve_left hshort⟩

/-- A message of 20 bytes in three blocks, with the rest of the buffer behind it. -/
def threeBlocks : List UInt8 := 20 :: (List.range 256).map Nat.toUInt8

theorem restored_threeBlocks : 257 ≤ threeBlocks.length ∧
    Restored (fun _ _ _ => 0) (fun _ _ _ => 0) threeBlocks ((List.range 16).map Nat.toUInt8) := by
  have hlen : 257 ≤ threeBlocks.length := by rw [threeBlocks, List.length_cons, List.length_map, List.length_range]
  exact ⟨hlen, (restored_iff _ _ _ _ hlen).mpr (.inl (by decide))⟩

/-- The bits of a block of zeros after each round with the key of zeros, eight in a byte. -/
def zeroStates : List (List UInt8) :=
  [[0x00, 0x00, 0x00, 0x00, 0x00, 0x00, 0x00, 0x00], [0x00, 0x00, 0x00, 0x00, 0xd8, 0xd8, 0xdb, 0xbc],
    [0xd8, 0xd8, 0xdb, 0xbc, 0xe7, 0x3a, 0xed, 0x4f], [0xe7, 0x3a, 0xed, 0x4f, 0x5b, 0xfa, 0x6b, 0xa6],
    [0x5b, 0xfa, 0x6b, 0xa6, 0x5e, 0x45, 0xe2, 0x57], [0x5e, 0x45, 0xe2, 0x57, 0x8b, 0x19, 0x7b, 0xe0],
    [0x8b, 0x19, 0x7b, 0xe0, 0xfd, 0xe9, 0x89, 0x4a], [0xfd, 0xe9, 0x89, 0x4a, 0x19, 0xdf, 0x0b, 0x5c],
    [0x19, 0xdf, 0x0b, 0x5c, 0x90, 0x7a, 0x13, 0xf0], [0x90, 0x7a, 0x13, 0xf0, 0x88, 0x19, 0x0c, 0x50],
    [0x88, 0x19, 0x0c, 0x50, 0x25, 0xd1, 0x51, 0x7c], [0x25, 0xd1, 0x51, 0x7c, 0xf3, 0xef, 0x91, 0x7e],
    [0xf3, 0xef, 0x91, 0x7e, 0x96, 0xe3, 0x97, 0x12], [0x96, 0xe3, 0x97, 0x12, 0x5a, 0x5d, 0xa3, 0x4a],
    [0x5a, 0x5d, 0xa3, 0x4a, 0x05, 0x8c, 0xad, 0x0a], [0x05, 0x8c, 0xad, 0x0a, 0xbb, 0xea, 0x0d, 0xc2]]

theorem desKeys_zeros : desKeys (List.replicate 8 0) = List.replicate 16 (List.replicate 48 0) := by decide +kernel

theorem zeroStates_step : ∀ i < 15,
    DES_Swap (mixHalves (List.replicate 48 0) (Char8ToBit64 (zeroStates.getD i []))) =
      Char8ToBit64 (zeroStates.getD (i + 1) []) := by
  decide +kernel

/-- The rounds from the `i`-th on. -/
theorem foldl_zeroStates (n : Nat) : ∀ i, i + n = 15 →
    (rounds (List.replicate (n + 1) (List.replicate 48 0))).foldl bitsStep (Char8ToBit64 (zeroStates.getD i [])) =
      mixHalves (List.replicate 48 0) (Char8ToBit64 (zeroStates.getD 15 [])) := by
  induction n with
  | zero =>
    intro i hi
    obtain rfl : i = 15 := by omega
    rfl
  | succ n ih =>
    intro i hi
    rw [← ih (i + 1) (by omega), ← zeroStates_step i (by omega)]
    rfl

theorem encrypt_des_zeros (mem : Nat → UInt8) :
    encrypt_des mem (List.replicate 8 0) (List.replicate 8 0) = [0x8c, 0xa6, 0x4d, 0xe9, 0xc1, 0xb1, 0x23, 0xa7] := by
  have hstart : DES_IP_Transform (Char8ToBit64 (List.replicate 8 0)) = Char8ToBit64 (zeroStates.getD 0 []) := by
    decide +kernel
  have hend : Bit64ToChar8 (DES_IP_1_Transform (mixHalves (List.replicate 48 0) (Char8ToBit64 (zeroStates.getD 15 [])))) =
      [0x8c, 0xa6, 0x4d, 0xe9, 0xc1, 0xb1, 0x23, 0xa7] := by
    decide +kernel
  rw [encrypt_des_eq, desKeys_zeros, through, hstart, foldl_zeroStates 15 0 rfl, hend]

/-- 249 zeros, encrypted with the key of zeros, are not restored. -/
theorem not_restored_zeros : ¬∀ (mem mem' : Nat → Nat → Nat → UInt8) (inoutdata keyStr : List UInt8),
    keyStr.length = 16 → 257 ≤ inoutdata.length → Restored mem mem' inoutdata keyStr := by
  intro h
  have hlen : (List.replicate 256 (0 : UInt8)).length = 256 := List.length_replicate
  have hrestored := h (fun _ _ _ => 0) (fun _ _ _ => 0) (249 :: List.replicate 256 0) (List.replicate 16 0)
    List.length_replicate (by rw [List.length_cons, hlen])
  have hlong : ¬(249 : UInt8).toNat ≤ 248 := by decide
  have hfirst := (restored_long_iff _ _ _ hlong (by omega)).mp hrestored 0 (by decide)
  have hblock : blockAt (249 :: List.replicate 256 0) 0 = List.replicate 8 0 := by decide +kernel
  have hkey : (List.replicate 16 (0 : UInt8)).take 8 = List.replicate 8 0 := by decide
  have hkey' : ((List.replicate 16 (0 : UInt8)).drop 8).take 8 = List.replicate 8 0 := by decide
  -- With both keys the same, the cipher is one encryption.
  rw [hblock, encryptBlock, hkey, hkey', decrypt_encrypt _ _ _ List.length_replicate, encrypt_des_zeros] at hfirst
  exact absurd hfirst (by decide)

end Perception.Comm
