import Mathlib.Algebra.GroupWithZero.Nat
import Mathlib.Data.List.GetD
import Perception.Comm.Des

/-!
# The sub-keys of decryption

The rotations turn both halves of the key, and all left rotations together are a full turn.
Decryption begins where encryption ends and turns back, so that it has the same sub-keys in the
reverse order.
-/
namespace Perception.Comm

set_option autoImplicit false

open Perception.Lib

section Rotations

variable {α β : Type}

theorem cellAt_map (f : α → β) (mem : α) (a : List α) (i : Int) : cellAt (f mem) (a.map f) i = f (cellAt mem a i) := by
  unfold cellAt
  split
  · rfl
  · exact List.getD_map ..

theorem foldl_map_cells {f : α → β} {g₁ : List α → Nat → List α} {g₂ : List β → Nat → List β}
    (h : ∀ a i, g₂ (a.map f) i = (g₁ a i).map f) (is : List Nat) (a : List α) :
    is.foldl g₂ (a.map f) = (is.foldl g₁ a).map f := List.foldl_hom (List.map f) h

/-- What a rotation does to the places it does to every array. -/
theorem DES_ROL_map (f : α → β) (mem : α) (data_a : List α) (time : Nat) :
    DES_ROL (f mem) (data_a.map f) time = (DES_ROL mem data_a time).map f := by
  have hsave (a : List α) (i : Nat) :
      saveLeft (f mem) (data_a.map f) time (a.map f) i = (saveLeft mem data_a time a i).map f := by
    simp only [saveLeft, cellAt_map, List.map_set]
  have hshift (a : List α) (i : Nat) : shiftLeft (f mem) time (a.map f) i = (shiftLeft mem time a i).map f := by
    simp only [shiftLeft]
    rw [cellAt_map, ← List.map_set, cellAt_map, ← List.map_set]
  have hrestore (temp a : List α) (i : Nat) :
      restoreLeft (f mem) (temp.map f) time (a.map f) i = (restoreLeft mem temp time a i).map f := by
    simp only [restoreLeft, cellAt_map, List.map_set]
  unfold DES_ROL
  rw [← List.map_replicate, foldl_map_cells hsave, foldl_map_cells hshift, foldl_map_cells (hrestore _)]

theorem DES_ROR_map (f : α → β) (mem : α) (data_a : List α) (time : Nat) :
    DES_ROR (f mem) (data_a.map f) time = (DES_ROR mem data_a time).map f := by
  have hsave (a : List α) (i : Nat) :
      saveRight (f mem) (data_a.map f) time (a.map f) i = (saveRight mem data_a time a i).map f := by
    simp only [saveRight, cellAt_map, List.map_set]
  have hshift (a : List α) (i : Nat) : shiftRight (f mem) time (a.map f) i = (shiftRight mem time a i).map f := by
    simp only [shiftRight]
    rw [cellAt_map, ← List.map_set, cellAt_map, ← List.map_set]
  have hrestore (temp a : List α) (i : Nat) :
      restoreRight (f mem) (temp.map f) (a.map f) i = (restoreRight mem temp a i).map f := by
    simp only [restoreRight, cellAt_map, List.map_set]
  unfold DES_ROR
  rw [← List.map_replicate, foldl_map_cells hsave, foldl_map_cells hshift, foldl_map_cells (hrestore _)]

/-- Both halves turned to the left. -/
def rotl (time : Nat) (x : List α) : List α := (x.take 28).rotate time ++ (x.drop 28).rotate time

theorem length_rotl (time : Nat) (x : List α) : (rotl time x).length = x.length := by
  rw [rotl, List.length_append, List.length_rotate, List.length_rotate, ← List.length_append, List.take_append_drop]

theorem rotl_map (f : α → β) (time : Nat) (x : List α) : rotl time (x.map f) = (rotl time x).map f := by
  rw [rotl, rotl, List.map_append, List.map_rotate, List.map_rotate, List.map_take, List.map_drop]

theorem rotl_rotl (m n : Nat) {x : List α} (hx : x.length = 56) : rotl n (rotl m x) = rotl (m + n) x := by
  have hfirst : ((x.take 28).rotate m).length = 28 := by
    rw [List.length_rotate, List.length_take, hx]
    rfl
  have htake : (rotl m x).take 28 = (x.take 28).rotate m := List.take_left' hfirst
  have hdrop : (rotl m x).drop 28 = (x.drop 28).rotate m := List.drop_left' hfirst
  rw [rotl, htake, hdrop, List.rotate_rotate, List.rotate_rotate, rotl]

/-- A full turn. -/
theorem rotl_28 {x : List α} (hx : x.length = 56) : rotl 28 x = x := by
  have hfirst : (x.take 28).length = 28 := by
    rw [List.length_take, hx]
    rfl
  have hsecond : (x.drop 28).length = 28 := by rw [List.length_drop, hx]
  have htake := List.rotate_length (x.take 28)
  have hdrop := List.rotate_length (x.drop 28)
  rw [hfirst] at htake
  rw [hsecond] at hdrop
  rw [rotl, htake, hdrop, List.take_append_drop]

/-- An array and the cell beside it, read off their places. -/
theorem exists_places (mem : α) {x : List α} (hx : x.length = 56) :
    ∃ f : Nat → α, f 56 = mem ∧ (List.range 56).map f = x := by
  refine ⟨fun j => x.getD j mem, ?_, List.ext_getElem ?_ fun j hj hj' => ?_⟩
  · exact List.getD_eq_default _ _ (Nat.le_of_eq hx)
  · rw [List.length_map, List.length_range, hx]
  · rw [List.getElem_map, List.getElem_range, List.getD_eq_getElem _ _ hj']

/-- The places after a rotation, with 56 for the cell beside the array. -/
theorem DES_ROL_places : ∀ time ∈ [1, 2], DES_ROL 56 (List.range 56) time = rotl time (List.range 56) := by
  decide +kernel

theorem DES_ROR_places : ∀ time ∈ [1, 2], DES_ROR 56 (List.range 56) time = rotl (28 - time) (List.range 56) := by
  decide +kernel

theorem DES_ROL_eq (mem : α) {x : List α} (hx : x.length = 56) {time : Nat} (ht : time ∈ [1, 2]) :
    DES_ROL mem x time = rotl time x := by
  obtain ⟨f, rfl, rfl⟩ := exists_places mem hx
  rw [DES_ROL_map, DES_ROL_places time ht, rotl_map]

theorem DES_ROR_eq (mem : α) {x : List α} (hx : x.length = 56) {time : Nat} (ht : time ∈ [1, 2]) :
    DES_ROR mem x time = rotl (28 - time) x := by
  obtain ⟨f, rfl, rfl⟩ := exists_places mem hx
  rw [DES_ROR_map, DES_ROR_places time ht, rotl_map]

end Rotations

/-- The sub-keys of the rounds, for what a round does to the bits of the key. -/
def subKeyList (rotate : Nat → List UInt8 → List UInt8) : List Nat → List UInt8 → List (List UInt8)
  | [], _ => []
  | cnt :: cnts, temp => DES_PC2_Transform (rotate cnt temp) :: subKeyList rotate cnts (rotate cnt temp)

theorem subKeyList_eq (rotate : Nat → List UInt8 → List UInt8) (cnts : List Nat) (temp : List UInt8) :
    subKeyList rotate cnts temp = (Undo.states (fun x cnt => rotate cnt x) temp cnts).map DES_PC2_Transform := by
  induction cnts generalizing temp with
  | nil => rfl
  | cons cnt cnts ih => rw [subKeyList, ih, Undo.states, List.map_cons]

/-- A turn to the left and its undoing. -/
def turn (x : List UInt8) (time : Nat) : List UInt8 := rotl time x
def turnBack (x : List UInt8) (time : Nat) : List UInt8 := rotl (28 - time) x

theorem length_turn (x : List UInt8) (time : Nat) : (turn x time).length = x.length := length_rotl time x

theorem length_turnBack (x : List UInt8) (time : Nat) : (turnBack x time).length = x.length :=
  length_rotl (28 - time) x

theorem undoes_turn {time : Nat} (h : time ≤ 28) : Undo.Undoes (fun x => x.length = 56) turn turnBack time := by
  intro x hx
  have hsum : time + (28 - time) = 28 := by omega
  refine ⟨(length_turn x time).trans hx, ?_⟩
  rw [turnBack, turn, rotl_rotl _ _ hx, hsum, rotl_28 hx]

/-- The states of the rounds, once the moves are read from a table. -/
theorem states_rotate {rotate : Nat → List UInt8 → List UInt8} {step : List UInt8 → Nat → List UInt8} {moves : List Nat}
    {cnts : List Nat} (hlen : ∀ x time, (step x time).length = x.length)
    (h : ∀ cnt ∈ cnts, ∀ x : List UInt8, x.length = 56 → rotate cnt x = step x (moves.getD cnt 0))
    {x : List UInt8} (hx : x.length = 56) :
    Undo.states (fun x cnt => rotate cnt x) x cnts = Undo.states step x (cnts.map fun cnt => moves.getD cnt 0) := by
  induction cnts generalizing x with
  | nil => rfl
  | cons cnt cnts ih =>
    obtain ⟨hcnt, hcnts⟩ := List.forall_mem_cons.mp h
    rw [Undo.states, hcnt x hx, ih hcnts ((hlen x _).trans hx), List.map_cons, Undo.states]

theorem encryptRotate_eq (mem : Nat → UInt8) : ∀ cnt ∈ List.range 16, ∀ x : List UInt8, x.length = 56 →
    encryptRotate mem cnt x = turn x (encryptMoves.getD cnt 0) := by
  intro cnt hcnt x hx
  have htime : ∀ cnt ∈ List.range 16, encryptMoves.getD cnt 0 ∈ [1, 2] := by decide
  exact DES_ROL_eq (mem cnt) hx (htime cnt hcnt)

theorem decryptRotate_eq (mem : Nat → UInt8) : ∀ cnt ∈ List.range' 1 15, ∀ x : List UInt8, x.length = 56 →
    decryptRotate mem cnt x = turnBack x (decryptMoves.getD cnt 0) := by
  intro cnt hcnt x hx
  have htime : ∀ cnt ∈ List.range' 1 15, cnt ≠ 0 ∧ decryptMoves.getD cnt 0 ∈ [1, 2] := by decide
  rw [decryptRotate, if_pos (htime cnt hcnt).1]
  exact DES_ROR_eq (mem cnt) hx (htime cnt hcnt).2

theorem foldl_turn (ts : List Nat) {x : List UInt8} (hx : x.length = 56) : ts.foldl turn x = rotl ts.sum x := by
  induction ts generalizing x with
  | nil => rw [List.foldl_nil, List.sum_nil, rotl, List.rotate_zero, List.rotate_zero, List.take_append_drop]
  | cons t ts ih =>
    rw [List.foldl_cons, ih ((length_turn x t).trans hx), turn, rotl_rotl _ _ hx, List.sum_cons]

/-- All sub-keys of decryption are those of encryption in reverse: the left rotations are a full
turn, so that decryption begins where encryption ends, and it undoes them one by one. -/
theorem subKeyList_reverse (mem mem' : Nat → UInt8) {x : List UInt8} (hx : x.length = 56) :
    subKeyList (decryptRotate mem') (List.range 16) x = (subKeyList (encryptRotate mem) (List.range 16) x).reverse := by
  have hmoves : (List.range 16).map (fun cnt => encryptMoves.getD cnt 0) = 1 :: encryptMoves.tail := by decide
  have hback : (List.range' 1 15).map (fun cnt => decryptMoves.getD cnt 0) = encryptMoves.tail.reverse := by decide
  have hundo : ∀ time ∈ encryptMoves.tail, Undo.Undoes (fun x => x.length = 56) turn turnBack time := by
    have hle : ∀ time ∈ encryptMoves.tail, time ≤ 28 := by decide
    exact fun time ht => undoes_turn (hle time ht)
  have hfirst : (turn x 1).length = 56 := (length_turn x 1).trans hx
  have hturn : encryptMoves.tail.foldl turn (turn x 1) = x := by
    rw [foldl_turn _ hfirst, turn, rotl_rotl _ _ hx]
    exact rotl_28 hx
  have hstates := Undo.states_undo hundo hfirst
  rw [hturn] at hstates
  have hrange : List.range 16 = 0 :: List.range' 1 15 := by decide
  have hzero : decryptRotate mem' 0 x = x := rfl
  rw [subKeyList_eq, subKeyList_eq, states_rotate length_turn (encryptRotate_eq mem) hx, hmoves,
    Undo.states, hstates, hrange, Undo.states, hzero,
    states_rotate length_turnBack (decryptRotate_eq mem') hx, hback, List.map_reverse,
    List.reverse_reverse]

end Perception.Comm
