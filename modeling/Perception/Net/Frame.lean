import Perception.Net.NetTcpDataPkg
import Mathlib.Tactic.Common

/-!
# What one raw frame does

The fields of an un-escaped frame, read from the bytes between the length field and
the tail, and the effect of one frame on the object in closed form. The receive
buffer plays no part in it.
-/
namespace Perception.Net

set_option autoImplicit false

open Perception.Lib

theorem wordOf_wordBytes (w : UInt16) :
    wordOf ((wordBytes w).getD 0 0) ((wordBytes w).getD 1 0) = w := by
  have hw : w.toNat < 65536 := w.toNat_lt
  apply UInt16.toNat_inj.mp
  simp only [wordOf, wordBytes, List.getD_cons_zero, List.getD_cons_succ, UInt8.toNat_ofNat',
    UInt16.toNat_ofNat']
  omega

theorem intOf_intBytes {n : Nat} (h : n < 4294967296) : intOf (intBytes n) = n := by
  simp only [intOf, intBytes, dwordBytes, List.reverse_cons, List.reverse_nil, List.nil_append,
    List.cons_append, List.getD_cons_zero, List.getD_cons_succ, UInt8.toNat_ofNat']
  omega

/-- The un-escaped bytes between the length field and the tail of a raw frame. -/
def frameContent (f : List UInt8) : List UInt8 := unstuff cTailFlag (f.drop s32HeardOffSet).dropLast

def contentVersion (c : List UInt8) : UInt8 := c.getD 0 0
def contentSeqno (c : List UInt8) : UInt16 := wordOf (c.getD 1 0) (c.getD 2 0)
def contentCmd (c : List UInt8) : UInt8 := c.getD 3 0
def contentType (c : List UInt8) : UInt8 := c.getD 4 0
def contentResult (c : List UInt8) : UInt8 := c.getD 5 0
def contentBody (c : List UInt8) : List UInt8 := (c.drop 6).take (c.length - 8)

/-- The content is long enough and its last two bytes are the crc of those before. -/
def CrcValid (c : List UInt8) : Prop :=
  8 ≤ c.length ∧
    CalcCRC1021 (c.take (c.length - 2)) = wordOf (c.getD (c.length - 2) 0) (c.getD (c.length - 1) 0)

instance (c : List UInt8) : Decidable (CrcValid c) := inferInstanceAs (Decidable (_ ∧ _))

/-- The content is handed to the distribute callback. -/
def Accepted (c : List UInt8) : Prop := CrcValid c ∧ contentVersion c ≤ CURRENT_PROTOCOL_VERSION

instance (c : List UInt8) : Decidable (Accepted c) := inferInstanceAs (Decidable (_ ∧ _))

def contentCallback (srv cli : String) (c : List UInt8) : Callback where
  cmd := contentCmd c
  result := contentResult c
  body := contentBody c
  strServerFlag := srv
  strCliFlag := cli

/-- The raw frame is too short to be decoded, or its content fits in `UnCode`. -/
def FrameFits (f : List UInt8) : Prop :=
  f.length < nPkgNobodyLen ∨ (frameContent f).length ≤ nMaxPkgLen

instance (f : List UInt8) : Decidable (FrameFits f) := inferInstanceAs (Decidable (_ ∨ _))

/-- The raw frame leads to a callback. -/
def Dispatched (f : List UInt8) : Prop :=
  nPkgNobodyLen ≤ f.length ∧ (frameContent f).length ≤ nMaxPkgLen ∧ Accepted (frameContent f)

instance (f : List UInt8) : Decidable (Dispatched f) := inferInstanceAs (Decidable (_ ∧ _))

/-- The decoding of a raw frame, as an event; a short frame is not decoded. -/
def unconvtEvents (f : List UInt8) : List Event :=
  if f.length < nPkgNobodyLen then [] else [.unconvt (frameContent f).length true]

def distributeEvents (srv cli : String) (f : List UInt8) : List Event :=
  if Dispatched f then
    [.distribute (contentCallback srv cli (frameContent f)) (contentVersion (frameContent f))
      (contentSeqno (frameContent f))]
  else []

def frameEvents (srv cli : String) (f : List UInt8) : List Event :=
  unconvtEvents f ++ distributeEvents srv cli f

theorem callbacks_append (xs ys : List Event) : callbacks (xs ++ ys) = callbacks xs ++ callbacks ys :=
  List.filterMap_append

theorem callbacks_frameEvents (srv cli : String) (f : List UInt8) :
    callbacks (frameEvents srv cli f) =
      if Dispatched f then [contentCallback srv cli (frameContent f)] else [] := by
  have hu : callbacks (unconvtEvents f) = [] := by
    unfold unconvtEvents
    split <;> rfl
  rw [frameEvents, callbacks_append, hu, List.nil_append]
  unfold distributeEvents
  split <;> rfl

theorem frameContent_concat {body : List UInt8} (h : s32HeardOffSet ≤ body.length) :
    frameContent (body ++ [cTailFlag]) = unstuff cTailFlag (body.drop s32HeardOffSet) := by
  rw [frameContent, List.drop_append_of_le_length h, List.dropLast_concat]

theorem frameContent_length_le (f : List UInt8) :
    (frameContent f).length ≤ f.length - s32HeardOffSet - 1 := by
  have h : (frameContent f).length + escapePairs (f.drop s32HeardOffSet).dropLast = _ :=
    Stuffing.unstuff_length 0x34 (~~~ ·) cTailFlag (f.drop s32HeardOffSet).dropLast
  simp only [List.length_dropLast, List.length_drop] at h
  omega

theorem frameContent_pos {f : List UInt8} (h : nPkgNobodyLen ≤ f.length) :
    0 < (frameContent f).length := by
  have hraw : (f.drop s32HeardOffSet).dropLast ≠ [] := by
    intro he
    have hl := congrArg List.length he
    simp [nPkgNobodyLen, nPkgHeadLen, nPkgTailLen, s32HeardOffSet, nHeadFlagLen, nIntLen] at h hl
    omega
  obtain ⟨x, xs, he⟩ := List.exists_cons_of_ne_nil hraw
  rw [frameContent, he, unstuff]
  by_cases hx : x = 0x34
  · cases xs with
    | nil => simp [Stuffing.unstuff, hx]
    | cons y r => rw [hx, Stuffing.unstuff_esc]; simp
  · rw [Stuffing.unstuff_plain 0x34 (~~~ ·) hx]
    simp

namespace NetTcpDataPkg

/-- The object after a frame whose content `c` was decoded. -/
def checked (d : NetTcpDataPkg) (c : List UInt8) : NetTcpDataPkg :=
  { d with
    m_pkg_buffer :=
      if CrcValid c then []
      else cHeadFlag :: intBytes (s32HeardOffSet + c.length + nTailFlagLen) ++ c ++ [cTailFlag]
    m_u8Version := if CrcValid c then contentVersion c else d.m_u8Version
    m_seqno := if Accepted c then contentSeqno c else d.m_seqno }

/-- The object after a raw frame. -/
def received (d : NetTcpDataPkg) (f : List UInt8) : NetTcpDataPkg :=
  if f.length < nPkgNobodyLen then { d with m_nOriginalDataLen := f.length }
  else { d with m_nOriginalDataLen := f.length }.checked (frameContent f)

theorem ParsePkgData_eq (d : NetTcpDataPkg) :
    d.ParsePkgData =
      ⟨if d.m_pkg_buffer.getD 5 0 ≤ CURRENT_PROTOCOL_VERSION then
          [.distribute
            { cmd := d.m_pkg_buffer.getD 8 0
              result := d.m_pkg_buffer.getD 10 0
              body := (d.m_pkg_buffer.drop nPkgHeadLen).take
                (intOf ((d.m_pkg_buffer.drop nHeadFlagLen).take nIntLen) - nPkgNobodyLen)
              strServerFlag := d.m_strServerFlag
              strCliFlag := d.m_strCliFlag }
            (d.m_pkg_buffer.getD 5 0) (wordOf (d.m_pkg_buffer.getD 6 0) (d.m_pkg_buffer.getD 7 0))]
        else [],
        some { d with
          m_pkg_buffer := []
          m_u8Version := d.m_pkg_buffer.getD 5 0
          m_seqno := if d.m_pkg_buffer.getD 5 0 ≤ CURRENT_PROTOCOL_VERSION then
            wordOf (d.m_pkg_buffer.getD 6 0) (d.m_pkg_buffer.getD 7 0) else d.m_seqno }⟩ := by
  unfold ParsePkgData
  by_cases hv : d.m_pkg_buffer.getD 5 0 ≤ CURRENT_PROTOCOL_VERSION
  · simp only [if_pos hv]
    rfl
  · simp only [if_neg hv]
    rfl

/-- The package that `ReadWholePkg` rebuilds around a content. -/
def pkgOf (c : List UInt8) : List UInt8 :=
  cHeadFlag :: intBytes (s32HeardOffSet + c.length + nTailFlagLen) ++ c ++ [cTailFlag]

theorem pkgOf_drop_head (c : List UInt8) : (pkgOf c).drop s32HeardOffSet = c ++ [cTailFlag] := rfl

theorem pkgOf_drop (c : List UInt8) {k : Nat} (hk : k ≤ c.length) :
    (pkgOf c).drop (s32HeardOffSet + k) = c.drop k ++ [cTailFlag] := by
  rw [← List.drop_drop, pkgOf_drop_head, List.drop_append_of_le_length hk]

theorem pkgOf_getD (c : List UInt8) {k : Nat} (hk : k < c.length) :
    (pkgOf c).getD (s32HeardOffSet + k) 0 = c.getD k 0 := by
  rw [List.getD_eq_getElem?_getD, ← List.getElem?_drop, pkgOf_drop_head,
    List.getElem?_append_left hk, ← List.getD_eq_getElem?_getD]

theorem pkgOf_length_field {c : List UInt8} (hc : c.length ≤ nMaxPkgLen) :
    intOf (((pkgOf c).drop nHeadFlagLen).take nIntLen) = s32HeardOffSet + c.length + nTailFlagLen := by
  have hn : s32HeardOffSet + c.length + nTailFlagLen < 4294967296 := by
    simp only [nMaxPkgLen, s32HeardOffSet, nHeadFlagLen, nIntLen, nTailFlagLen] at hc ⊢
    omega
  have hf : ((pkgOf c).drop nHeadFlagLen).take nIntLen =
      intBytes (s32HeardOffSet + c.length + nTailFlagLen) := rfl
  rw [hf, intOf_intBytes hn]

/-- The bytes that the checksum covers are the content without its last two. -/
theorem pkgOf_covered {c : List UInt8} (hlen : 8 ≤ c.length) :
    ((pkgOf c).drop s32HeardOffSet).take
      (s32HeardOffSet + c.length + nTailFlagLen - s32HeardOffSet - nPkgTailLen) = c.take (c.length - 2) := by
  have hd := pkgOf_drop c (Nat.zero_le c.length)
  have hk : s32HeardOffSet + c.length + nTailFlagLen - s32HeardOffSet - nPkgTailLen = c.length - 2 := by
    simp only [nPkgTailLen, nTailFlagLen]
    omega
  rw [Nat.add_zero, List.drop_zero] at hd
  rw [hd, hk, List.take_append_of_le_length (by omega)]

/-- The checksum of the package is in the last two bytes of the content. -/
theorem pkgOf_crc {c : List UInt8} (hlen : 8 ≤ c.length) :
    wordOf (((pkgOf c).drop (s32HeardOffSet + c.length + nTailFlagLen - nPkgTailLen)).getD 0 0)
      (((pkgOf c).drop (s32HeardOffSet + c.length + nTailFlagLen - nPkgTailLen)).getD 1 0) =
      wordOf (c.getD (c.length - 2) 0) (c.getD (c.length - 1) 0) := by
  have hoff : s32HeardOffSet + c.length + nTailFlagLen - nPkgTailLen =
      s32HeardOffSet + (c.length - 2) := by
    simp only [nPkgTailLen, nTailFlagLen]
    omega
  have hhi : ((pkgOf c).drop (s32HeardOffSet + (c.length - 2))).getD 0 0 =
      c.getD (c.length - 2) 0 := by
    rw [List.getD_eq_getElem?_getD, List.getElem?_drop, ← List.getD_eq_getElem?_getD, Nat.add_zero,
      pkgOf_getD c (by omega)]
  have hlo : ((pkgOf c).drop (s32HeardOffSet + (c.length - 2))).getD 1 0 =
      c.getD (c.length - 1) 0 := by
    rw [List.getD_eq_getElem?_getD, List.getElem?_drop, ← List.getD_eq_getElem?_getD, Nat.add_assoc,
      show c.length - 2 + 1 = c.length - 1 by omega, pkgOf_getD c (by omega)]
  rw [hoff, hhi, hlo]

/-- The body of the package is that of the content. -/
theorem pkgOf_body {c : List UInt8} (hlen : 8 ≤ c.length) :
    ((pkgOf c).drop nPkgHeadLen).take (s32HeardOffSet + c.length + nTailFlagLen - nPkgNobodyLen) =
      contentBody c := by
  have hd : (pkgOf c).drop nPkgHeadLen = c.drop 6 ++ [cTailFlag] := pkgOf_drop c (k := 6) (by omega)
  have hk : s32HeardOffSet + c.length + nTailFlagLen - nPkgNobodyLen = c.length - 8 := by
    simp only [nPkgNobodyLen, nPkgHeadLen, nPkgTailLen, s32HeardOffSet, nHeadFlagLen, nIntLen,
      nTailFlagLen]
    omega
  rw [hd, hk, List.take_append_of_le_length (by simp; omega)]
  rfl

/-- A content is long enough for a package exactly when it holds the fields. -/
theorem nPkgNobodyLen_le_iff (c : List UInt8) :
    nPkgNobodyLen ≤ s32HeardOffSet + c.length + nTailFlagLen ↔ 8 ≤ c.length := by
  simp only [nPkgNobodyLen, nPkgHeadLen, nPkgTailLen, s32HeardOffSet, nHeadFlagLen, nIntLen, nTailFlagLen]
  omega

/-- The checks on the rebuilt package are the checks on the content. -/
theorem CheckPkg_eq (d : NetTcpDataPkg) {c : List UInt8} (hc : c.length ≤ nMaxPkgLen) :
    d.CheckPkg c =
      ⟨if Accepted c then
          [.distribute (contentCallback d.m_strServerFlag d.m_strCliFlag c) (contentVersion c)
            (contentSeqno c)]
        else [], some (d.checked c)⟩ := by
  have hchk : d.CheckPkg c =
      if nPkgNobodyLen ≤ s32HeardOffSet + c.length + nTailFlagLen then
        if CalcCRC1021 (((pkgOf c).drop s32HeardOffSet).take
            (s32HeardOffSet + c.length + nTailFlagLen - s32HeardOffSet - nPkgTailLen)) =
          wordOf (((pkgOf c).drop (s32HeardOffSet + c.length + nTailFlagLen - nPkgTailLen)).getD 0 0)
            (((pkgOf c).drop (s32HeardOffSet + c.length + nTailFlagLen - nPkgTailLen)).getD 1 0)
        then { d with m_pkg_buffer := pkgOf c }.ParsePkgData
        else pure { d with m_pkg_buffer := pkgOf c }
      else pure { d with m_pkg_buffer := pkgOf c } := rfl
  rw [hchk]
  by_cases hlen : 8 ≤ c.length
  · rw [if_pos ((nPkgNobodyLen_le_iff c).mpr hlen), pkgOf_covered hlen, pkgOf_crc hlen]
    by_cases hcrc : CalcCRC1021 (c.take (c.length - 2)) =
        wordOf (c.getD (c.length - 2) 0) (c.getD (c.length - 1) 0)
    · have hvalid : CrcValid c := ⟨hlen, hcrc⟩
      have hver : (pkgOf c).getD 5 0 = contentVersion c := pkgOf_getD c (k := 0) (by omega)
      have hs1 : (pkgOf c).getD 6 0 = c.getD 1 0 := pkgOf_getD c (k := 1) (by omega)
      have hs2 : (pkgOf c).getD 7 0 = c.getD 2 0 := pkgOf_getD c (k := 2) (by omega)
      have hcmd : (pkgOf c).getD 8 0 = contentCmd c := pkgOf_getD c (k := 3) (by omega)
      have hres : (pkgOf c).getD 10 0 = contentResult c := pkgOf_getD c (k := 5) (by omega)
      rw [if_pos hcrc, ParsePkgData_eq]
      simp only [hver, hs1, hs2, hcmd, hres, pkgOf_length_field hc, pkgOf_body hlen, Accepted, hvalid, true_and,
        checked, if_true]
      rfl
    · have hvalid : ¬ CrcValid c := fun h => hcrc h.2
      rw [if_neg hcrc]
      simp only [Accepted, hvalid, false_and, if_false, checked]
      rfl
  · have hvalid : ¬ CrcValid c := fun h => hlen h.1
    rw [if_neg fun h => hlen ((nPkgNobodyLen_le_iff c).mp h)]
    simp only [Accepted, hvalid, false_and, if_false, checked]
    rfl

/-- What the object does with one raw frame: the events, and the object after it unless
the content does not fit. -/
def receiveFrame (d : NetTcpDataPkg) (f : List UInt8) : Traced Event NetTcpDataPkg :=
  ⟨frameEvents d.m_strServerFlag d.m_strCliFlag f, if FrameFits f then some (d.received f) else none⟩

/-- On a buffer that starts with a raw frame the loop body handles that frame. -/
theorem HandlePkg_eq (d : NetTcpDataPkg) {body rest : List UInt8}
    (hb : d.m_receive_buffer = body ++ cTailFlag :: rest) :
    d.HandlePkg body.length = d.receiveFrame (body ++ [cTailFlag]) := by
  have hl : (body ++ [cTailFlag]).length = body.length + 1 := by simp
  unfold HandlePkg receiveFrame
  by_cases hlen : body.length + 1 < nPkgNobodyLen
  · have hfit : FrameFits (body ++ [cTailFlag]) := Or.inl (hl ▸ hlen)
    have hnd : ¬ Dispatched (body ++ [cTailFlag]) := fun h => Nat.not_lt.mpr (hl ▸ h.1) hlen
    simp only [hlen, if_true, frameEvents, unconvtEvents, distributeEvents, hl, hnd, if_false,
      hfit, received, List.append_nil]
    rfl
  · have h5 : s32HeardOffSet ≤ body.length := by
      simp only [nPkgNobodyLen, nPkgHeadLen, nPkgTailLen, s32HeardOffSet, nHeadFlagLen, nIntLen] at hlen ⊢
      omega
    have hin : d.m_receive_buffer.drop s32HeardOffSet =
        body.drop s32HeardOffSet ++ cTailFlag :: rest := by
      rw [hb, List.drop_append_of_le_length h5]
    have hn : body.length + 1 - s32HeardOffSet - nTailFlagLen = (body.drop s32HeardOffSet).length := by
      simp only [nTailFlagLen, List.length_drop]
      omega
    have hpos : ¬ (frameContent (body ++ [cTailFlag])).length ≤ 0 :=
      Nat.not_le.mpr (frameContent_pos (by omega))
    have hread : (UnconvtCode (body.drop s32HeardOffSet ++ cTailFlag :: rest)
        (body.drop s32HeardOffSet).length).1 ≤
          (body.drop s32HeardOffSet ++ cTailFlag :: rest).length := by
      have h := UnconvtCode_fst_le (body.drop s32HeardOffSet) cTailFlag rest
      simp only [List.length_append, List.length_cons]
      omega
    simp only [if_neg hlen, hn, hin, UnconvtCode_snd, ← frameContent_concat h5, hread,
      Nat.not_lt.mpr hread, decide_true, or_false, Traced.emit_bind, if_neg hpos]
    by_cases hbig : nMaxPkgLen < (frameContent (body ++ [cTailFlag])).length
    · have hfit : ¬ FrameFits (body ++ [cTailFlag]) := by
        rintro (h | h)
        · exact hlen (hl ▸ h)
        · omega
      have hnd : ¬ Dispatched (body ++ [cTailFlag]) := fun h => Nat.not_lt.mpr h.2.1 hbig
      simp only [hbig, if_true, frameEvents, unconvtEvents, distributeEvents, hl, hlen, hnd, if_false,
        hfit, List.append_nil]
      rfl
    · have hle := Nat.not_lt.mp hbig
      have hfit : FrameFits (body ++ [cTailFlag]) := Or.inr hle
      have hd : Dispatched (body ++ [cTailFlag]) ↔ Accepted (frameContent (body ++ [cTailFlag])) :=
        ⟨fun h => h.2.2, fun h => ⟨by omega, hle, h⟩⟩
      simp only [hbig, if_false, CheckPkg_eq _ hle, frameEvents, unconvtEvents, distributeEvents, hl,
        hlen, hd, hfit, if_true, received]
      rfl

end NetTcpDataPkg

end Perception.Net
