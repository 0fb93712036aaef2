import Perception.Alg.FaceAlg
import Perception.App.CommSafeFace
import Perception.App.Report

/-!
# The library of faces

A registration joins the features of its images into one text of a row. The library is read
back from all rows into one feature for each, and the algorithm compares with it.
-/
namespace Perception.App

set_option autoImplicit false

open Perception.Lib Perception.Cfg Perception.Db Perception.Alg StateExcept

/-- A row of `FaceRegisteTable`, without its id. -/
structure FaceRow where
  ID_card : String
  ID_name : String
  ID_feature : List Char
  ID_img : List Char
  white_name : String

/-- A registration, and whether the database takes its row, which is not looked at. -/
structure Registration where
  strIDCard : String
  strIDName : String
  strWhiteName : String
  vecBase64FaceImgData : List String
  bSaved : Bool

/-- The table, and the library that the algorithm has. -/
structure FaceLib (R : Type) where
  table : AutoTable FaceRow
  m_mapFaceFeature : List (Int × List R)

/-- What the network returns for the faces of an image. -/
abbrev Net (R : Type) (d : Nat) : Type := String → List (Vector R (d + 1))

/-- `GetInt` of a number that is no `int` fails an assertion. -/
def GetInt (n : Int) : Except Exn Int := if -2147483648 ≤ n ∧ n ≤ 2147483647 then .ok n else .error .undefined

variable {R : Type} {d : Nat} (io : NumText R) (net : Net R d)

def GetFaceFeature (strBase64FaceImgData : String) : List (List Char) :=
  (FaceFeatureExt (net strBase64FaceImgData)).map (featureText io)

/-- The loop over the images: their first features and the images, joined. -/
def joinFeatures : List String → List Char × List Char
  | [] => ([], [])
  | FaceImgData :: vecBase64FaceImgData =>
    let (streamFeature, streamFaceImg) := joinFeatures vecBase64FaceImgData
    if FaceImgData.isEmpty then (streamFeature, streamFaceImg)
    else
      match GetFaceFeature io net FaceImgData with
      | [] => (streamFeature, streamFaceImg)
      | strFeature :: _ => (strFeature ++ ':' :: streamFeature, FaceImgData.toList ++ ':' :: streamFaceImg)

/-- The numbers of a text, whatever is between them. -/
def featureOf (ID_feature : List Char) : List R :=
  (IStream.lines ':' ⟨cString ID_feature, true⟩).flatMap io.numbers

def readRow (mapFaceFeature : List (Int × List R)) (row : Int × FaceRow) : Except Exn (List (Int × List R)) := do
  let s32FaceId ← GetInt row.1
  pure (SortedMap.emplace mapFaceFeature s32FaceId (featureOf io row.2.ID_feature))

def ReadFaceFeatureLst (s : CommSafeMng) (table : AutoTable FaceRow) : Except Exn (List (Int × List R)) := do
  let doc ← s.ReadDBTableData table.rows
  doc.foldlM (readRow io) []

/-- The row of a registration. -/
def faceRow (r : Registration) : FaceRow where
  ID_card := c_str r.strIDCard
  ID_name := c_str r.strIDName
  ID_feature := cString (joinFeatures io net r.vecBase64FaceImgData).1
  ID_img := cString (joinFeatures io net r.vecBase64FaceImgData).2
  white_name := c_str r.strWhiteName

/-- The answer to a registration, after which the algorithm is given the library anew. -/
def CommSafeFace.FaceRegiste (s : CommSafeMng) (obj : CommSafeFace) (lib : FaceLib R) (r : Registration) :
    Except Exn (Bool × FaceLib R) :=
  if r.vecBase64FaceImgData.isEmpty || !obj.m_ptrMsgBus then pure (false, lib)
  else if (joinFeatures io net r.vecBase64FaceImgData).1.isEmpty then pure (false, lib)
  else do
    let table := if r.bSaved then lib.table.insert (faceRow io net r) else lib.table
    let mapFaceFeature ← ReadFaceFeatureLst io s table
    pure (true, ⟨table, mapFaceFeature⟩)

/-- The registrations of a run, from no face. -/
def registe (s : CommSafeMng) (obj : CommSafeFace) (calls : List Registration) : Except Exn (FaceLib R) :=
  calls.foldlM (fun lib r => Prod.snd <$> obj.FaceRegiste io net s lib r) ⟨.empty 0, []⟩

/-- After every registration that is answered the library fits the array of the algorithm. -/
def LibraryConsistent [Zero R] (s : CommSafeMng) (obj : CommSafeFace) (calls : List Registration) : Prop :=
  ∀ pre post, calls = pre ++ post → ∀ lib, registe io net s obj pre = .ok lib → Consistent d lib.m_mapFaceFeature

/-- The number of images that a registration takes a feature from, where `found` tells the
images with a face. -/
def features (found : String → Bool) (r : Registration) : Nat :=
  (r.vecBase64FaceImgData.filter fun img => !img.isEmpty && found img).length

def storedFeatures (found : String → Bool) (r : Registration) : Option Nat :=
  if 0 < features found r && r.bSaved then some (features found r) else none

/-- The numbers of features in the rows that the registrations store. -/
def stored (found : String → Bool) (calls : List Registration) : List Nat := calls.filterMap (storedFeatures found)

/-- All rows have features of one length, no longer than the array. -/
def Uniform (d : Nat) (counts : List Nat) : Prop :=
  ∀ k ∈ counts, k * d ≤ d + 1 ∧ ∀ k' ∈ counts, k' * d = k * d

/-- The first features of the images that have one. -/
def chosen (imgs : List String) : List (List R) :=
  imgs.filterMap fun img => if img.isEmpty then none else (FaceFeatureExt (net img)).head?

theorem joinFeatures_eq (imgs : List String) :
    (joinFeatures io net imgs).1 = ((chosen net imgs).map (featureText io)).flatMap (· ++ [':']) := by
  induction imgs with
  | nil => rfl
  | cons img imgs ih =>
    rw [joinFeatures, chosen, List.filterMap_cons]
    cases hempty : img.isEmpty with
    | true =>
      simp only [if_true]
      exact ih
    | false =>
      simp only [Bool.false_eq_true, if_false, GetFaceFeature]
      cases hext : FaceFeatureExt (net img) with
      | nil => exact ih
      | cons vec vecs =>
        simp only [List.map_cons, List.head?_cons, List.flatMap_cons, ih, List.append_assoc, List.singleton_append]
        rfl

theorem length_chosen {imgs : List String} {vec : List R} (h : vec ∈ chosen net imgs) : vec.length = d := by
  obtain ⟨img, -, himg⟩ := List.mem_filterMap.mp h
  split at himg
  · cases himg
  · exact length_of_mem_FaceFeatureExt (List.mem_of_mem_head? himg)

theorem mem_featureText {vec : List R} {c : Char} (h : c ∈ featureText io vec) : c = ' ' ∨ isNumChar c = true := by
  obtain ⟨x, -, hc⟩ := List.mem_flatMap.mp h
  rcases List.mem_append.mp hc with hc | hc
  · exact .inr (io.put_chars x c hc)
  · exact .inl (List.mem_singleton.mp hc)

theorem colon_not_mem_featureText (vec : List R) : ':' ∉ featureText io vec := by
  intro h
  rcases mem_featureText io h with h | h
  · exact absurd h (by decide)
  · exact (isNumChar_toNat h).2 rfl

theorem nulFree_joinFeatures (imgs : List String) : NulFree (joinFeatures io net imgs).1 := by
  rw [joinFeatures_eq]
  intro h
  obtain ⟨text, htext, h⟩ := List.mem_flatMap.mp h
  obtain ⟨vec, -, rfl⟩ := List.mem_map.mp htext
  rcases List.mem_append.mp h with h | h
  · rcases mem_featureText io h with h | h
    · exact absurd h (by decide)
    · exact absurd (isNumChar_toNat h).1 (by decide)
  · exact absurd (List.mem_singleton.mp h) (by decide)

/-- The features of a row are read back one behind the other. -/
theorem featureOf_faceRow (r : Registration) :
    featureOf io (faceRow io net r).ID_feature = (chosen net r.vecBase64FaceImgData).flatMap (·.map io.round) := by
  have hnul := nulFree_joinFeatures io net r.vecBase64FaceImgData
  have hcolon : ∀ text ∈ (chosen net r.vecBase64FaceImgData).map (featureText io), ':' ∉ text := by
    intro text htext
    obtain ⟨vec, -, rfl⟩ := List.mem_map.mp htext
    exact colon_not_mem_featureText io vec
  rw [featureOf, faceRow, cString_eq_self.mpr (cString_nulFree _), cString_eq_self.mpr hnul, joinFeatures_eq,
    IStream.lines_flatMap hcolon, List.flatMap_map]
  apply List.flatMap_congr
  intro vec _
  exact io.numbers_flatMap vec

theorem foldlM_readRow (rows : List FaceRow) (s : Nat) (m : List (Int × List R)) (hm : ∀ e ∈ m, e.1 ≤ (s : Int)) :
    (AutoTable.numbered (s : Int) rows).foldlM (readRow io) m =
      if s + rows.length ≤ 2147483647 ∨ rows = [] then
        .ok (m ++ AutoTable.numbered (s : Int) (rows.map fun row => featureOf io row.ID_feature))
      else .error .undefined := by
  induction rows generalizing s m with
  | nil =>
    rw [if_pos (.inr rfl)]
    show Except.ok m = .ok (m ++ [])
    rw [List.append_nil]
  | cons row rows ih =>
    rw [AutoTable.numbered, List.foldlM_cons, readRow]
    by_cases hfit : (s : Int) + 1 ≤ 2147483647
    · have hget : GetInt ((s : Int) + 1) = .ok ((s : Int) + 1) := if_pos ⟨by omega, hfit⟩
      have hnew : SortedMap.emplace m ((s : Int) + 1) (featureOf io row.ID_feature) =
          m ++ [((s : Int) + 1, featureOf io row.ID_feature)] :=
        SortedMap.emplace_append_new _ fun e he => Int.lt_add_one_of_le (hm e he)
      have hm' : ∀ e ∈ m ++ [((s : Int) + 1, featureOf io row.ID_feature)], e.1 ≤ ((s + 1 : Nat) : Int) := by
        intro e he
        rcases List.mem_append.mp he with he | he
        · have := hm e he
          omega
        · rw [List.mem_singleton.mp he]
          exact Int.le_refl _
      have hrest := ih (s + 1) _ hm'
      have hcond : (s + 1 + rows.length ≤ 2147483647 ∨ rows = []) ↔
          (s + (row :: rows).length ≤ 2147483647 ∨ row :: rows = []) := by
        rw [List.length_cons]
        constructor
        · rintro (h | rfl)
          · exact .inl (by omega)
          · exact .inl (by rw [List.length_nil]; omega)
        · rintro (h | h)
          · exact .inl (by omega)
          · cases h
      rw [hget, except_ok_bind, hnew]
      show (AutoTable.numbered (((s + 1 : Nat) : Int)) rows).foldlM (readRow io) _ = _
      rw [hrest, List.append_assoc]
      exact if_congr hcond rfl rfl
    · have hget : GetInt ((s : Int) + 1) = .error .undefined := if_neg fun h => hfit h.2
      have hbig : ¬(s + (row :: rows).length ≤ 2147483647 ∨ row :: rows = []) := by
        rw [List.length_cons]
        rintro (h | h)
        · omega
        · cases h
      rw [hget, if_neg hbig]
      rfl

theorem ReadFaceFeatureLst_eq {s : CommSafeMng} (hs : s.m_ptrMsgBus = true) {table : AutoTable FaceRow}
    {rows : List FaceRow} (hrows : table.rows = AutoTable.numbered 0 rows) :
    ReadFaceFeatureLst io s table =
      if rows.length ≤ 2147483647 then
        .ok (AutoTable.numbered 0 (rows.map fun row => featureOf io row.ID_feature))
      else .error .undefined := by
  have hdoc : s.ReadDBTableData table.rows = .ok table.rows := if_pos hs
  rw [ReadFaceFeatureLst, hdoc, except_ok_bind, hrows]
  have hfold := foldlM_readRow io rows 0 [] nofun
  rw [List.nil_append] at hfold
  refine hfold.trans (if_congr ?_ rfl rfl)
  constructor
  · rintro (h | rfl)
    · omega
    · exact Nat.zero_le _
  · intro h
    exact .inl (by omega)

/-- The feature of the row that a registration stores, as it is read back. -/
def storedVector (r : Registration) : Option (List R) :=
  if (chosen net r.vecBase64FaceImgData).isEmpty || !r.bSaved then none
  else some ((chosen net r.vecBase64FaceImgData).flatMap (·.map io.round))

def storedVectors (calls : List Registration) : List (List R) := calls.filterMap (storedVector io net)

/-- The table holds rows numbered from 1, which are read back as these. -/
def Holds (table : AutoTable FaceRow) (vectors : List (List R)) : Prop :=
  ∃ rows : List FaceRow, AutoTable.Suffix table 0 0 rows ∧ rows.map (fun row => featureOf io row.ID_feature) = vectors

structure Registered (vectors : List (List R)) (lib : FaceLib R) : Prop where
  table : Holds io lib.table vectors
  library : lib.m_mapFaceFeature = AutoTable.numbered 0 vectors

theorem Holds.read {io : NumText R} {s : CommSafeMng} (hs : s.m_ptrMsgBus = true) {table : AutoTable FaceRow} {vectors : List (List R)}
    (h : Holds io table vectors) :
    ReadFaceFeatureLst io s table =
      if vectors.length ≤ 2147483647 then .ok (AutoTable.numbered 0 vectors) else .error .undefined := by
  obtain ⟨rows, hsuffix, rfl⟩ := h
  rw [List.length_map]
  exact ReadFaceFeatureLst_eq io hs hsuffix.rows_eq

theorem storedVector_of_empty {r : Registration} (h : (chosen net r.vecBase64FaceImgData).isEmpty = true) :
    storedVector io net r = none := by
  rw [storedVector, h]
  rfl

theorem Holds.store {io : NumText R} {net : Net R d} {table : AutoTable FaceRow} {vectors : List (List R)}
    (h : Holds io table vectors) {r : Registration} (hchosen : (chosen net r.vecBase64FaceImgData).isEmpty = false) :
    Holds io (if r.bSaved then table.insert (faceRow io net r) else table)
      (vectors ++ (storedVector io net r).toList) := by
  obtain ⟨rows, hsuffix, rfl⟩ := h
  cases hsaved : r.bSaved with
  | false =>
    have hnone : storedVector io net r = none := by
      rw [storedVector, hchosen, hsaved]
      rfl
    rw [hnone, Option.toList_none, List.append_nil]
    exact ⟨rows, hsuffix, rfl⟩
  | true =>
    have hsome : storedVector io net r = some ((chosen net r.vecBase64FaceImgData).flatMap (·.map io.round)) := by
      rw [storedVector, hchosen, hsaved]
      rfl
    refine ⟨rows ++ [faceRow io net r], hsuffix.insert _, ?_⟩
    rw [List.map_append, List.map_singleton, featureOf_faceRow, hsome]
    rfl

theorem joinFeatures_isEmpty (imgs : List String) : (joinFeatures io net imgs).1.isEmpty = (chosen net imgs).isEmpty := by
  rw [joinFeatures_eq]
  cases chosen net imgs with
  | nil => rfl
  | cons vec vecs =>
    rw [List.map_cons, List.flatMap_cons, List.isEmpty_cons, List.isEmpty_eq_false_iff, List.append_assoc]
    exact List.append_ne_nil_of_right_ne_nil _ (List.cons_ne_nil _ _)

/-- One registration: a row is stored and the library read back, or nothing changes. -/
theorem FaceRegiste_eq {s : CommSafeMng} (hs : s.m_ptrMsgBus = true) {obj : CommSafeFace}
    (hobj : obj.m_ptrMsgBus = true) {vectors : List (List R)} {lib : FaceLib R} (h : Registered io vectors lib)
    (hfit : vectors.length ≤ 2147483647) (r : Registration) :
    ∃ lib', Registered io (vectors ++ (storedVector io net r).toList) lib' ∧
      Prod.snd <$> obj.FaceRegiste io net s lib r =
        if (vectors ++ (storedVector io net r).toList).length ≤ 2147483647 then .ok lib' else .error .undefined := by
  cases hchosen : (chosen net r.vecBase64FaceImgData).isEmpty with
  | true =>
    have hcall : obj.FaceRegiste io net s lib r = .ok (false, lib) := by
      rw [CommSafeFace.FaceRegiste, joinFeatures_isEmpty, hchosen, if_pos rfl, ite_self]
      rfl
    rw [storedVector_of_empty io net hchosen, Option.toList_none, List.append_nil]
    refine ⟨lib, h, ?_⟩
    rw [if_pos hfit, hcall]
    rfl
  | false =>
    have himgs : r.vecBase64FaceImgData.isEmpty = false := by
      cases himgs : r.vecBase64FaceImgData with
      | nil =>
        rw [himgs] at hchosen
        cases hchosen
      | cons img imgs => rfl
    have htable := h.table.store hchosen
    refine ⟨⟨_, AutoTable.numbered 0 (vectors ++ (storedVector io net r).toList)⟩, ⟨htable, rfl⟩, ?_⟩
    rw [CommSafeFace.FaceRegiste, himgs, hobj, joinFeatures_isEmpty, hchosen]
    simp only [Bool.not_true, Bool.or_self, Bool.false_eq_true, if_false, htable.read hs]
    split
    · rfl
    · rfl

/-- The run up to the first row whose number is no `int`. -/
theorem registe_cases {s : CommSafeMng} (hs : s.m_ptrMsgBus = true) {obj : CommSafeFace}
    (hobj : obj.m_ptrMsgBus = true) (calls : List Registration) :
    ((storedVectors io net calls).length ≤ 2147483647 ∧
        ∃ lib, Registered io (storedVectors io net calls) lib ∧ registe io net s obj calls = .ok lib) ∨
      (2147483647 < (storedVectors io net calls).length ∧ registe io net s obj calls = .error .undefined) := by
  induction calls using List.reverseRecOn with
  | nil => exact .inl ⟨Nat.zero_le _, ⟨.empty 0, []⟩, ⟨⟨[], .of_empty 0, rfl⟩, rfl⟩, rfl⟩
  | append_singleton calls r ih =>
    have hvectors : storedVectors io net (calls ++ [r]) = storedVectors io net calls ++ (storedVector io net r).toList := by
      rw [storedVectors, List.filterMap_append, storedVectors]
      cases h : storedVector io net r <;> simp [h]
    have hstep : registe io net s obj (calls ++ [r]) =
        registe io net s obj calls >>= fun lib => Prod.snd <$> obj.FaceRegiste io net s lib r := by
      rw [registe, List.foldlM_append]
      apply bind_congr
      intro lib
      rw [List.foldlM_cons]
      exact bind_pure _
    rw [hvectors, hstep]
    rcases ih with ⟨hfit, lib, hreg, hrun⟩ | ⟨hbig, hrun⟩
    · rw [hrun, except_ok_bind]
      obtain ⟨lib', hreg', heq⟩ := FaceRegiste_eq io net hs hobj hreg hfit r
      rw [heq]
      by_cases hfit' : (storedVectors io net calls ++ (storedVector io net r).toList).length ≤ 2147483647
      · exact .inl ⟨hfit', lib', hreg', if_pos hfit'⟩
      · exact .inr ⟨Nat.lt_of_not_le hfit', if_neg hfit'⟩
    · refine .inr ⟨?_, by rw [hrun]; rfl⟩
      rw [List.length_append]
      omega

theorem registered_of_ok {s : CommSafeMng} (hs : s.m_ptrMsgBus = true) {obj : CommSafeFace}
    (hobj : obj.m_ptrMsgBus = true) {calls : List Registration} {lib : FaceLib R}
    (h : registe io net s obj calls = .ok lib) :
    (storedVectors io net calls).length ≤ 2147483647 ∧ Registered io (storedVectors io net calls) lib := by
  rcases registe_cases io net hs hobj calls with ⟨hfit, lib', hreg, hrun⟩ | ⟨-, hrun⟩
  · rw [hrun] at h
    cases h
    exact ⟨hfit, hreg⟩
  · rw [hrun] at h
    cases h

section Lengths

variable {found : String → Bool} (hfound : ∀ img, (net img).isEmpty = !found img)
include hfound

theorem length_chosen_eq (r : Registration) : (chosen net r.vecBase64FaceImgData).length = features found r := by
  rw [features, chosen]
  induction r.vecBase64FaceImgData with
  | nil => rfl
  | cons img imgs ih =>
    have hhead : (FaceFeatureExt (net img)).head?.isSome = found img := by
      have himg := hfound img
      cases hnet : net img with
      | nil =>
        rw [hnet] at himg
        cases hf : found img with
        | false => rfl
        | true =>
          rw [hf] at himg
          cases himg
      | cons v vs =>
        rw [hnet] at himg
        cases hf : found img with
        | true => rfl
        | false =>
          rw [hf] at himg
          cases himg
    rw [List.filterMap_cons, List.filter_cons]
    cases hempty : img.isEmpty with
    | true =>
      simp only [if_true, Bool.not_true, Bool.false_and, Bool.false_eq_true, if_false]
      exact ih
    | false =>
      simp only [Bool.false_eq_true, if_false, Bool.not_false, Bool.true_and]
      cases hf : found img with
      | true =>
        rw [hf, Option.isSome_iff_exists] at hhead
        obtain ⟨vec, hvec⟩ := hhead
        rw [hvec, if_pos rfl, List.length_cons, List.length_cons, ih]
      | false =>
        rw [hf, Option.isSome_eq_false_iff, Option.isNone_iff_eq_none] at hhead
        rw [hhead, if_neg Bool.false_ne_true]
        exact ih

/-- A row is as long as all its features. -/
theorem map_length_storedVector (r : Registration) :
    (storedVector io net r).map List.length = (storedFeatures found r).map (· * d) := by
  have hlen := length_chosen_eq net hfound r
  have hempty : (chosen net r.vecBase64FaceImgData).isEmpty = !decide (0 < features found r) := by
    rw [← hlen]
    cases chosen net r.vecBase64FaceImgData <;> simp
  have htotal : ((chosen net r.vecBase64FaceImgData).flatMap (·.map io.round)).length = features found r * d := by
    rw [List.length_flatMap, ← hlen]
    have hconst : ∀ vec ∈ chosen net r.vecBase64FaceImgData, (vec.map io.round).length = d := by
      intro vec hvec
      rw [List.length_map]
      exact length_chosen net hvec
    rw [List.map_congr_left hconst, List.map_const', List.sum_replicate_nat]
  rw [storedVector, storedFeatures, hempty]
  cases decide (0 < features found r) <;> cases r.bSaved <;> simp [htotal]

theorem map_length_storedVectors (calls : List Registration) :
    (storedVectors io net calls).map List.length = (stored found calls).map (· * d) := by
  rw [storedVectors, stored, List.map_filterMap, List.map_filterMap]
  exact List.filterMap_congr fun r _ => map_length_storedVector io net hfound r

theorem length_storedVectors (calls : List Registration) :
    (storedVectors io net calls).length = (stored found calls).length := by
  have hlengths := congrArg List.length (map_length_storedVectors io net hfound calls)
  rwa [List.length_map, List.length_map] at hlengths

end Lengths

theorem stored_append (found : String → Bool) (pre post : List Registration) :
    stored found (pre ++ post) = stored found pre ++ stored found post := List.filterMap_append

theorem exists_stored_take (found : String → Bool) (calls : List Registration) (n : Nat) :
    ∃ pre post, calls = pre ++ post ∧ stored found pre = (stored found calls).take n := by
  induction calls generalizing n with
  | nil => exact ⟨[], [], rfl, by rw [stored, List.filterMap_nil, List.take_nil]⟩
  | cons r calls ih =>
    cases hr : storedFeatures found r with
    | none =>
      obtain ⟨pre, post, rfl, hpre⟩ := ih n
      refine ⟨r :: pre, post, rfl, ?_⟩
      rw [stored, stored, List.filterMap_cons_none hr, List.filterMap_cons_none hr]
      exact hpre
    | some k =>
      cases n with
      | zero => exact ⟨[], r :: calls, rfl, by rw [List.take_zero]; rfl⟩
      | succ n =>
        obtain ⟨pre, post, rfl, hpre⟩ := ih n
        refine ⟨r :: pre, post, rfl, ?_⟩
        rw [stored, stored, List.filterMap_cons_some hr, List.filterMap_cons_some hr, List.take_succ_cons]
        exact congrArg (k :: ·) hpre

/-- From dimension 3 on that is one image with a face for each row. -/
theorem uniform_iff_one {d : Nat} (hd : 2 ≤ d) (found : String → Bool) (calls : List Registration) :
    Uniform d ((stored found calls).take 2147483647) ↔ ∀ k ∈ (stored found calls).take 2147483647, k = 1 := by
  constructor
  · intro h k hk
    have hpos : 0 < k := by
      obtain ⟨r, -, hr⟩ := List.mem_filterMap.mp (List.mem_of_mem_take hk)
      rw [storedFeatures] at hr
      split at hr
      · next hcond =>
        cases hr
        exact of_decide_eq_true (Bool.and_eq_true_iff.mp hcond).1
      · cases hr
    by_contra hne
    have htwo : 2 * d ≤ k * d := Nat.mul_le_mul_right d (by omega)
    have hfit := (h k hk).1
    omega
  · intro h k hk
    rw [h k hk]
    refine ⟨by omega, fun k' hk' => ?_⟩
    rw [h k' hk']

/-- The application and its face task, both on the bus. -/
def faceMng : CommSafeMng := ⟨true, [], ⟨[]⟩⟩

def faceTask : CommSafeFace := ⟨true, .null, .null, []⟩

def registration (imgs : List String) : Registration := ⟨"ID", "name", "white", imgs, true⟩

section Fits

variable [Zero R] {s : CommSafeMng} (hs : s.m_ptrMsgBus = true) {obj : CommSafeFace} (hobj : obj.m_ptrMsgBus = true)
include hs hobj

theorem consistent_of_uniform {found : String → Bool} (hfound : ∀ img, (net img).isEmpty = !found img)
    {calls : List Registration} (h : Uniform d (stored found calls)) {lib : FaceLib R}
    (hrun : registe io net s obj calls = .ok lib) : Consistent d lib.m_mapFaceFeature := by
  have hreg := (registered_of_ok io net hs hobj hrun).2
  have hlengths := map_length_storedVectors io net hfound calls
  have hvector : ∀ e ∈ lib.m_mapFaceFeature, ∃ k ∈ stored found calls, e.2.length = k * d := by
    intro e he
    rw [hreg.library] at he
    have hmem : e.2 ∈ storedVectors io net calls := AutoTable.mem_of_mem_numbered he
    have hlen : e.2.length ∈ (stored found calls).map (· * d) := by
      rw [← hlengths]
      exact List.mem_map_of_mem hmem
    obtain ⟨k, hk, heq⟩ := List.mem_map.mp hlen
    exact ⟨k, hk, heq.symm⟩
  cases hstored : stored found calls with
  | nil =>
    apply consistent_of_length_eq (Nat.zero_le (d + 1))
    intro e he
    obtain ⟨k, hk, -⟩ := hvector e he
    rw [hstored] at hk
    cases hk
  | cons k₀ ks =>
    have hk₀ : k₀ ∈ stored found calls := by
      rw [hstored]
      exact List.mem_cons_self
    apply consistent_of_length_eq (h k₀ hk₀).1
    intro e he
    obtain ⟨k, hk, hlen⟩ := hvector e he
    rw [hlen]
    exact (h k₀ hk₀).2 k hk

/-- Faces whose features are the same number all over. -/
def flatNet (d : Nat) (found : String → Bool) (x : R) : Net R d := fun img =>
  if found img then [Vector.replicate (d + 1) x] else []

omit [Zero R] hs hobj in
theorem flatNet_found (found : String → Bool) (x : R) (img : String) : (flatNet d found x img).isEmpty = !found img := by
  cases h : found img <;> simp [flatNet, h]

omit [Zero R] hs hobj in
theorem eq_of_mem_flatNet {found : String → Bool} {x : R} {calls : List Registration} {vec : List R} {y : R}
    (hvec : vec ∈ storedVectors io (flatNet d found x) calls) (hy : y ∈ vec) : y = io.round x := by
  obtain ⟨r, -, hr⟩ := List.mem_filterMap.mp hvec
  rw [storedVector] at hr
  split at hr
  · cases hr
  · cases hr
    obtain ⟨feature, hfeature, hy⟩ := List.mem_flatMap.mp hy
    obtain ⟨z, hz, rfl⟩ := List.mem_map.mp hy
    obtain ⟨img, -, himg⟩ := List.mem_filterMap.mp hfeature
    split at himg
    · cases himg
    · obtain ⟨face, hface, rfl⟩ := List.mem_map.mp (List.mem_of_mem_head? himg)
      have hz' := List.mem_of_mem_take hz
      rw [flatNet] at hface
      split at hface
      · rw [List.mem_singleton.mp hface, Vector.toList_replicate] at hz'
        rw [List.eq_of_mem_replicate hz']
      · cases hface

theorem uniform_of_consistent {x : R} (hx : io.round x ≠ 0) {found : String → Bool} {calls : List Registration}
    (hfit : (stored found calls).length ≤ 2147483647)
    (h : ∀ lib, registe io (flatNet d found x) s obj calls = .ok lib → Consistent d lib.m_mapFaceFeature) :
    Uniform d (stored found calls) := by
  have hlengths := map_length_storedVectors io (flatNet d found x) (flatNet_found found x) calls
  have hcount := length_storedVectors io (flatNet d found x) (flatNet_found found x) calls
  rcases registe_cases io (flatNet d found x) hs hobj calls with ⟨-, lib, hreg, hrun⟩ | ⟨hbig, -⟩
  · have hcons := h lib hrun
    rw [hreg.library] at hcons
    have hvector : ∀ k ∈ stored found calls,
        ∃ e ∈ AutoTable.numbered 0 (storedVectors io (flatNet d found x) calls), e.2.length = k * d := by
      intro k hk
      have hlen : k * d ∈ (storedVectors io (flatNet d found x) calls).map List.length := by
        rw [hlengths]
        exact List.mem_map_of_mem hk
      obtain ⟨vec, hvec, hlen⟩ := List.mem_map.mp hlen
      obtain ⟨i, hi⟩ := AutoTable.exists_mem_numbered 0 hvec
      exact ⟨(i, vec), hi, hlen⟩
    have hflat : ∀ e ∈ AutoTable.numbered 0 (storedVectors io (flatNet d found x) calls), ∀ y ∈ e.2, y = io.round x := by
      intro e he y hy
      exact eq_of_mem_flatNet io (AutoTable.mem_of_mem_numbered he) hy
    have hkeys := AutoTable.nodup_numbered 0 (storedVectors io (flatNet d found x) calls)
    intro k hk
    obtain ⟨e, he, hlen⟩ := hvector k hk
    refine ⟨hlen ▸ hcons.fits e he, fun k' hk' => ?_⟩
    obtain ⟨e', he', hlen'⟩ := hvector k' hk'
    have hle := length_eq_of_consistent hx hflat hkeys hcons he he'
    have hge := length_eq_of_consistent hx hflat hkeys hcons he' he
    omega
  · omega

/-- For every pattern of images with a face: the library stays inside the array and every
person is compared with nothing but their own features, whatever the features are, if and
only if all rows that are read have features of one length, no longer than the array. -/
theorem libraryConsistent_iff (hio : ∃ x, io.round x ≠ 0) (found : String → Bool) (calls : List Registration) :
    (∀ net : Net R d, (∀ img, (net img).isEmpty = !found img) → LibraryConsistent io net s obj calls) ↔
      Uniform d ((stored found calls).take 2147483647) := by
  constructor
  · intro h
    obtain ⟨x, hx⟩ := hio
    obtain ⟨pre, post, hcalls, hpre⟩ := exists_stored_take found calls 2147483647
    rw [← hpre]
    refine uniform_of_consistent io hs hobj hx ?_ fun lib hrun => ?_
    · rw [hpre]
      exact List.length_take_le _ _
    · exact h (flatNet d found x) (flatNet_found found x) pre post hcalls lib hrun
  · rintro huniform net hfound pre post rfl lib hrun
    refine consistent_of_uniform io net hs hobj hfound ?_ hrun
    have hfit := (registered_of_ok io net hs hobj hrun).1
    have hcount := length_storedVectors io net hfound pre
    have htake : (stored found (pre ++ post)).take 2147483647 =
        stored found pre ++ (stored found post).take (2147483647 - (stored found pre).length) := by
      rw [stored_append, List.take_append, List.take_of_length_le (by omega)]
    rw [htake] at huniform
    intro k hk
    obtain ⟨hle, heq⟩ := huniform k (List.mem_append_left _ hk)
    exact ⟨hle, fun k' hk' => heq k' (List.mem_append_left _ hk')⟩

end Fits

/-- Every picture but the blank one has a face. -/
def faceNet : Net Nat 2 := fun img => if img = "blank" then [] else [Vector.replicate 3 1]

/-- A person is stored, the next has no face, the third is not taken by the database, and the
last has one picture that is missing. -/
def registrations : List Registration :=
  [registration ["front"], registration ["blank"], { registration ["front"] with bSaved := false }, registration ["", "side"]]

theorem libraryConsistent_registrations : LibraryConsistent NumText.nat faceNet faceMng faceTask registrations := by
  have hfound : ∀ img, (faceNet img).isEmpty = !(img != "blank") := by
    intro img
    unfold faceNet
    by_cases hblank : img = "blank"
    · rw [if_pos hblank, hblank]
      rfl
    · rw [if_neg hblank, bne_iff_ne.mpr hblank]
      rfl
  refine (libraryConsistent_iff NumText.nat rfl rfl ⟨1, Nat.one_ne_zero⟩ (fun img => img != "blank") _).mpr ?_ _ hfound
  have hstored : (stored (fun img => img != "blank") registrations).take 2147483647 = [1, 1] :=
    List.take_of_length_le (Nat.le_of_lt (by decide))
  rw [hstored]
  intro k hk
  rw [List.eq_of_mem_replicate (n := 2) hk]
  refine ⟨by decide, fun k' hk' => ?_⟩
  rw [List.eq_of_mem_replicate (n := 2) hk']

/-- Two images of a person make a feature of 4 numbers, for an array of 3. -/
theorem not_libraryConsistent_two_images :
    ¬ LibraryConsistent NumText.nat (fun _ => [Vector.replicate 3 1] : Net Nat 2) faceMng faceTask
      [registration ["front", "side"]] := by
  intro h
  rcases @registe_cases _ _ NumText.nat (fun _ => [Vector.replicate 3 1] : Net Nat 2) faceMng rfl faceTask rfl
    [registration ["front", "side"]] with ⟨-, lib, hreg, hrun⟩ | ⟨hbig, -⟩
  · have hfits := (h _ [] rfl lib hrun).fits
    rw [hreg.library] at hfits
    have hlen := hfits (1, [1, 1, 1, 1]) (List.mem_singleton_self _)
    exact absurd hlen (by decide)
  · exact absurd hbig (by decide)

end Perception.App
