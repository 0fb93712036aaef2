import Perception.Lib.CBuffer
import Perception.Lib.Cut
import Perception.Onvif.OnvifIpc

/-!
# Addresses with a user and a password

What is too long or has no `//` is noticed and not stopped, and the copies have no bound.
-/
namespace Perception.Onvif

set_option autoImplicit false

open Perception.Db (cString)
open Perception.Cfg (NulFree)
open Perception.Lib.CBuffer
open Perception.Lib.Cut

abbrev NUL : Char := Char.ofNat 0

/-- What a `char*` stands for. -/
abbrev CText := { s : List Char // NulFree s }

/-- `%s:%s@` -/
def userInfo (username password : CText) : List Char := username.1 ++ [':'] ++ password.1 ++ ['@']

/-- The result and `dest_uri` afterwards; none when something is written at `size_dest_uri` or
behind it. -/
def ONVIF_GetStreamUriWithAuth (src_uri username password : CText) (size_dest_uri : UInt32) :
    Option (Int × List Char) := do
  let dest_uri := List.replicate size_dest_uri.toNat NUL
  let needBufSize := UInt32.ofNat (src_uri.1.length + username.1.length + password.1.length + 3)
  let result : Int := if size_dest_uri < needBufSize then -1 else 0
  if username.1.length = 0 ∧ password.1.length = 0 then
    let dest_uri ← strcpy NUL dest_uri 0 src_uri.1
    pure (result, dest_uri)
  else
    match cut ['/', '/'] src_uri.1 with
    -- `p` is two bytes behind NULL, and `p - src_uri` negative, which is huge as a size.
    | none => none
    | some (before, p) =>
      let dest_uri ← store dest_uri 0 (before ++ ['/', '/'])
      let dest_uri ← strcat NUL dest_uri (userInfo username password)
      let dest_uri ← strcat NUL dest_uri p
      pure (result, dest_uri)

def HasSeparator (src_uri : List Char) : Prop := ∃ before p, src_uri = before ++ (['/', '/'] ++ p)

/-- The address itself, or with the user and the password behind its first `//`. -/
def Authenticated (src_uri username password : CText) (uri : List Char) : Prop :=
  if username.1 = [] ∧ password.1 = [] then uri = src_uri.1
  else ∃ before p, src_uri.1 = before ++ (['/', '/'] ++ p) ∧
    (∀ before' p', src_uri.1 = before' ++ (['/', '/'] ++ p') → before.length ≤ before'.length) ∧
      uri = before ++ ['/', '/'] ++ userInfo username password ++ p

/-- Nothing is written outside, and the result is 0 exactly when there is such an address and it
fits with its terminator; then it is in the buffer. -/
def Built (src_uri username password : CText) (size_dest_uri : UInt32) : Prop :=
  ∃ result dest_uri, ONVIF_GetStreamUriWithAuth src_uri username password size_dest_uri = some (result, dest_uri) ∧
    (result = 0 ↔ ∃ uri, Authenticated src_uri username password uri ∧ uri.length < size_dest_uri.toNat) ∧
      (result = 0 → Authenticated src_uri username password (cString dest_uri))

variable {src_uri username password : CText} {size_dest_uri : UInt32}

theorem cString_holding {n : Nat} {t : List Char} (ht : NulFree t) : cString (holding NUL n t) = t :=
  takeWhile_holding ht n

/-- The result, once `n` is the number of the bytes that are needed. -/
def sizeResult (size_dest_uri : UInt32) (n : Nat) : Int := if n % 2 ^ 32 ≤ size_dest_uri.toNat then 0 else -1

theorem sizeResult_eq (size_dest_uri : UInt32) (n : Nat) :
    (if size_dest_uri < UInt32.ofNat n then -1 else 0 : Int) = sizeResult size_dest_uri n := by
  have hlt : size_dest_uri < UInt32.ofNat n ↔ ¬n % 2 ^ 32 ≤ size_dest_uri.toNat := by
    rw [UInt32.lt_iff_toNat_lt, UInt32.toNat_ofNat', Nat.not_le]
  unfold sizeResult
  by_cases h : n % 2 ^ 32 ≤ size_dest_uri.toNat
  · rw [if_pos h, if_neg (not_not.mpr h ∘ hlt.mp)]
  · rw [if_neg h, if_pos (hlt.mpr h)]

theorem sizeResult_eq_zero {n : Nat} : sizeResult size_dest_uri n = 0 ↔ n % 2 ^ 32 ≤ size_dest_uri.toNat := by
  unfold sizeResult
  split
  · next h => exact iff_of_true rfl h
  · next h => exact iff_of_false (by decide) h

theorem plain_eq (h : username.1 = [] ∧ password.1 = []) :
    ONVIF_GetStreamUriWithAuth src_uri username password size_dest_uri =
      if src_uri.1.length < size_dest_uri.toNat then
        some (sizeResult size_dest_uri (src_uri.1.length + 3), holding NUL size_dest_uri.toNat src_uri.1)
      else none := by
  have hcopy : strcpy NUL (holding NUL size_dest_uri.toNat []) 0 src_uri.1 =
      if 0 + src_uri.1.length < size_dest_uri.toNat then some (holding NUL size_dest_uri.toNat src_uri.1) else none :=
    strcpy_holding (Nat.zero_le _)
  obtain ⟨husername, hpassword⟩ := h
  unfold ONVIF_GetStreamUriWithAuth
  simp only [husername, hpassword, List.length_nil, Nat.add_zero, sizeResult_eq, and_self, if_true]
  rw [← holding_nil, hcopy, Nat.zero_add]
  split
  · rfl
  · rfl

theorem built_plain_iff (h : username.1 = [] ∧ password.1 = []) :
    Built src_uri username password size_dest_uri ↔
      src_uri.1.length + 1 ≤ size_dest_uri.toNat ∧ (src_uri.1.length + 3) % 2 ^ 32 ≤ size_dest_uri.toNat := by
  unfold Built Authenticated
  simp only [if_pos h, plain_eq h, exists_eq_left]
  constructor
  · intro hbuilt
    obtain ⟨result, dest_uri, hrun, hzero, -⟩ := hbuilt
    split at hrun
    · next hfits =>
      obtain ⟨rfl, rfl⟩ := Prod.mk.inj (Option.some.inj hrun)
      exact ⟨hfits, sizeResult_eq_zero.mp (hzero.mpr hfits)⟩
    · cases hrun
  · intro hroom
    obtain ⟨hfits, hsize⟩ := hroom
    refine ⟨_, _, if_pos hfits, ?_, fun _ => cString_holding src_uri.2⟩
    exact iff_of_true (sizeResult_eq_zero.mpr hsize) hfits

theorem nulFree_append {s t : List Char} : NulFree (s ++ t) ↔ NulFree s ∧ NulFree t := by
  unfold NulFree
  rw [List.mem_append, not_or]

theorem nulFree_userInfo (username password : CText) : NulFree (userInfo username password) := by
  unfold userInfo
  exact nulFree_append.mpr ⟨nulFree_append.mpr ⟨nulFree_append.mpr ⟨username.2, by decide⟩, password.2⟩, by decide⟩

theorem length_userInfo (username password : CText) :
    (userInfo username password).length = username.1.length + password.1.length + 2 := by
  simp only [userInfo, List.length_append, List.length_singleton]
  omega

/-- The three copies fit when the whole address does. -/
theorem copies_eq (n : Nat) (result : Int) {start info : List Char} (p : List Char) (hstart : NulFree start)
    (hinfo : NulFree info) :
    ((do
      let dest_uri ← store (List.replicate n NUL) 0 start
      let dest_uri ← strcat NUL dest_uri info
      let dest_uri ← strcat NUL dest_uri p
      pure (result, dest_uri)) : Option (Int × List Char)) =
        if (start ++ info ++ p).length < n then some (result, holding NUL n (start ++ info ++ p)) else none := by
  have hfirst : store (holding NUL n []) 0 start = if 0 + start.length ≤ n then some (holding NUL n start) else none :=
    store_holding (Nat.zero_le n)
  have hlen : (start ++ info ++ p).length = start.length + info.length + p.length := by
    rw [List.length_append, List.length_append]
  rw [← holding_nil, hfirst, Nat.zero_add, hlen]
  by_cases hfits : start.length ≤ n
  · rw [if_pos hfits, Option.bind_eq_bind, Option.bind_some, strcat_holding hstart hfits]
    by_cases hfits : start.length + info.length < n
    · have hle : (start ++ info).length ≤ n := by
        rw [List.length_append]
        omega
      rw [if_pos hfits, Option.bind_some, strcat_holding (nulFree_append.mpr ⟨hstart, hinfo⟩) hle,
        List.length_append]
      split
      · rfl
      · rfl
    · rw [if_neg hfits, if_neg (by omega)]
      rfl
  · rw [if_neg hfits, if_neg (by omega)]
    rfl

theorem length_eq_zero_iff {username password : CText} :
    username.1.length = 0 ∧ password.1.length = 0 ↔ username.1 = [] ∧ password.1 = [] := by
  rw [List.length_eq_zero_iff, List.length_eq_zero_iff]

theorem withUser_eq (h : ¬(username.1 = [] ∧ password.1 = [])) {before p : List Char}
    (hcut : cut ['/', '/'] src_uri.1 = some (before, p)) :
    ONVIF_GetStreamUriWithAuth src_uri username password size_dest_uri =
      if src_uri.1.length + username.1.length + password.1.length + 3 ≤ size_dest_uri.toNat then
        some (sizeResult size_dest_uri (src_uri.1.length + username.1.length + password.1.length + 3),
          holding NUL size_dest_uri.toNat (before ++ ['/', '/'] ++ userInfo username password ++ p))
      else none := by
  have hsrc := cut_eq_some hcut
  have hfree : NulFree (before ++ ['/', '/'] ++ p) := hsrc ▸ src_uri.2
  have hlen : src_uri.1.length = before.length + 2 + p.length := by
    rw [hsrc, List.length_append, List.length_append]
    rfl
  have huri : (before ++ ['/', '/'] ++ userInfo username password ++ p).length + 1 =
      src_uri.1.length + username.1.length + password.1.length + 3 := by
    rw [List.length_append, List.length_append, List.length_append, length_userInfo, hlen]
    simp only [List.length_cons, List.length_nil]
    omega
  unfold ONVIF_GetStreamUriWithAuth
  rw [if_neg (mt length_eq_zero_iff.mp h), hcut]
  dsimp only
  rw [sizeResult_eq, ← huri]
  exact copies_eq _ _ p (nulFree_append.mp hfree).1 (nulFree_userInfo username password)

theorem withoutSeparator_eq (h : ¬(username.1 = [] ∧ password.1 = [])) (hcut : cut ['/', '/'] src_uri.1 = none) :
    ONVIF_GetStreamUriWithAuth src_uri username password size_dest_uri = none := by
  unfold ONVIF_GetStreamUriWithAuth
  rw [if_neg (mt length_eq_zero_iff.mp h), hcut]

theorem built_withUser_iff (h : ¬(username.1 = [] ∧ password.1 = [])) :
    Built src_uri username password size_dest_uri ↔ HasSeparator src_uri.1 ∧
      src_uri.1.length + username.1.length + password.1.length + 3 ≤ size_dest_uri.toNat := by
  cases hcut : cut ['/', '/'] src_uri.1 with
  | none =>
    apply iff_of_false
    · intro hbuilt
      obtain ⟨result, dest_uri, hrun, -⟩ := hbuilt
      rw [withoutSeparator_eq h hcut] at hrun
      cases hrun
    · intro hroom
      obtain ⟨⟨before, p, hsrc⟩, -⟩ := hroom
      obtain ⟨r, hr⟩ : ∃ r, cut ['/', '/'] src_uri.1 = some r := by
        rw [hsrc]
        exact exists_cut before p
      rw [hr] at hcut
      cases hcut
  | some r =>
    obtain ⟨before, p⟩ := r
    have hsrc := cut_eq_some hcut
    rw [List.append_assoc] at hsrc
    have hfree : NulFree (before ++ (['/', '/'] ++ p)) := hsrc ▸ src_uri.2
    obtain ⟨hbefore, hrest⟩ := nulFree_append.mp hfree
    obtain ⟨hslashes, hp⟩ := nulFree_append.mp hrest
    have hurifree : NulFree (before ++ ['/', '/'] ++ userInfo username password ++ p) :=
      nulFree_append.mpr ⟨nulFree_append.mpr ⟨nulFree_append.mpr ⟨hbefore, hslashes⟩, nulFree_userInfo username password⟩, hp⟩
    have huri : Authenticated src_uri username password (before ++ ['/', '/'] ++ userInfo username password ++ p) := by
      unfold Authenticated
      rw [if_neg h]
      exact ⟨before, p, hsrc, fun before' p' hs => length_le_of_cut hcut hs, rfl⟩
    unfold Built
    rw [withUser_eq h hcut]
    constructor
    · intro hbuilt
      obtain ⟨result, dest_uri, hrun, -⟩ := hbuilt
      split at hrun
      · next hfits => exact ⟨⟨before, p, hsrc⟩, hfits⟩
      · cases hrun
    · intro hroom
      have hfits := hroom.2
      refine ⟨_, _, if_pos hfits, iff_of_true ?_ ⟨_, huri, ?_⟩, fun _ => ?_⟩
      · have hsize := size_dest_uri.toNat_lt
        rw [sizeResult_eq_zero, Nat.mod_eq_of_lt (by omega)]
        exact hfits
      · have hlen := congrArg List.length hsrc
        simp only [List.length_append, List.length_cons, List.length_nil, length_userInfo] at hlen ⊢
        omega
      · rw [cString_holding hurifree]
        exact huri

/-- **Addresses.** Without a user the address is copied as claimed when it fits and the bytes that
are asked for, which are two more, are counted as no more than there are; with a user when it has a
`//` and all of it fits. -/
theorem built_iff (src_uri username password : CText) (size_dest_uri : UInt32) :
    Built src_uri username password size_dest_uri ↔
      (username.1 = [] ∧ password.1 = [] ∧ src_uri.1.length + 1 ≤ size_dest_uri.toNat ∧
        (src_uri.1.length + 3) % 2 ^ 32 ≤ size_dest_uri.toNat) ∨
      (¬(username.1 = [] ∧ password.1 = []) ∧ HasSeparator src_uri.1 ∧
        src_uri.1.length + username.1.length + password.1.length + 3 ≤ size_dest_uri.toNat) := by
  by_cases h : username.1 = [] ∧ password.1 = []
  · rw [built_plain_iff h]
    constructor
    · intro hroom
      exact .inl ⟨h.1, h.2, hroom⟩
    · intro hroom
      rcases hroom with ⟨-, -, hfits⟩ | ⟨hnot, -⟩
      · exact hfits
      · exact absurd h hnot
  · rw [built_withUser_iff h]
    constructor
    · intro hfits
      exact .inr ⟨h, hfits⟩
    · intro hroom
      rcases hroom with ⟨husername, hpassword, -⟩ | ⟨-, hfits⟩
      · exact absurd ⟨husername, hpassword⟩ h
      · exact hfits

/-- A user and no `//`. -/
theorem not_built_noSeparator : ¬∀ (src_uri username password : CText) (size_dest_uri : UInt32),
    Built src_uri username password size_dest_uri := by
  intro h
  obtain ⟨result, dest_uri, hrun, -⟩ := h ⟨['r'], by decide⟩ ⟨['u'], by decide⟩ ⟨[], by decide⟩ 228
  rw [withoutSeparator_eq (by decide) (by decide)] at hrun
  cases hrun

end Perception.Onvif
