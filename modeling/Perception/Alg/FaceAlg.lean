import Perception.Cfg.Json
import Perception.Lib.IStream
import Perception.Lib.StateExcept

/-!
# The face algorithm

`CFaceAlg` leaves the last number of every feature out, and compares the faces of a frame
with those of its library through one array, which is not cleared in between. The dimension
of the features is `d + 1`.
-/
namespace Perception.Alg

set_option autoImplicit false

open Perception.Lib Perception.Cfg StateExcept

variable {R : Type}

/-- The features of the faces of an image, from what the network returns. -/
def FaceFeatureExt {d : Nat} (face_features : List (Vector R (d + 1))) : List (List R) :=
  face_features.map fun face_feature => face_feature.toList.take (d + 1 - 1)

/-- A feature as a text. -/
def featureText (io : NumText R) (vecVal : List R) : List Char := vecVal.flatMap fun val => io.put val ++ [' ']

theorem length_of_mem_FaceFeatureExt {d : Nat} {face_features : List (Vector R (d + 1))} {vec : List R}
    (h : vec ∈ FaceFeatureExt face_features) : vec.length = d := by
  obtain ⟨face_feature, -, rfl⟩ := List.mem_map.mp h
  rw [List.length_take, Vector.length_toList]
  omega

/-- `copy` into an array, which is not defined past its end. -/
def copy (xs dst : List R) : Except Exn (List R) :=
  if xs.length ≤ dst.length then .ok (xs ++ dst.drop xs.length) else .error .undefined

/-- What `FaceVerify` is given for a face of the library. -/
structure Comparison (R : Type) where
  s32FaceId : Int
  srcFeature : List R
  dstFeature : List R

/-- A face of the frame against the library. -/
def compareFace (srcFeature : List R) :
    List (Int × List R) → List R → Except Exn (List (Comparison R) × List R)
  | [], dstFeature => pure ([], dstFeature)
  | mapFeature :: m_mapFaceFeature, dstFeature => do
    let dstFeature ← copy mapFeature.2 dstFeature
    let (cs, last) ← compareFace srcFeature m_mapFaceFeature dstFeature
    pure (⟨mapFeature.1, srcFeature, dstFeature⟩ :: cs, last)

def compareFaces (m_mapFaceFeature : List (Int × List R)) :
    List (List R) → List R → List R → Except Exn (List (Comparison R))
  | [], _, _ => pure []
  | vec :: vecFloatFeature, srcFeature, dstFeature => do
    let srcFeature ← copy vec srcFeature
    let (cs, dstFeature) ← compareFace srcFeature m_mapFaceFeature dstFeature
    let rest ← compareFaces m_mapFaceFeature vecFloatFeature srcFeature dstFeature
    pure (cs ++ rest)

variable [Zero R]

/-- What is compared for a frame. -/
def ProcVideoStream (d : Nat) (m_mapFaceFeature : List (Int × List R)) (vecFloatFeature : List (List R)) :
    Except Exn (List (Comparison R)) :=
  compareFaces m_mapFaceFeature vecFloatFeature (List.replicate (d + 1) 0) (List.replicate (d + 1) 0)

/-- The library fits the array: no copy leaves it, and what is compared for a face is what
would be compared if that face was all of the library. -/
structure Consistent (d : Nat) (m_mapFaceFeature : List (Int × List R)) : Prop where
  fits : ∀ e ∈ m_mapFaceFeature, e.2.length ≤ d + 1
  inside : ∀ faces : List (List R), (∀ vec ∈ faces, vec.length = d) →
    ∃ cs, ProcVideoStream d m_mapFaceFeature faces = .ok cs
  own : ∀ faces : List (List R), (∀ vec ∈ faces, vec.length = d) →
    ∀ cs, ProcVideoStream d m_mapFaceFeature faces = .ok cs → ∀ c ∈ cs, ∃ vec,
      (c.s32FaceId, vec) ∈ m_mapFaceFeature ∧ copy vec (List.replicate (d + 1) 0) = .ok c.dstFeature

omit [Zero R] in
theorem copy_eq_ok {xs dst r : List R} : copy xs dst = .ok r ↔ xs.length ≤ dst.length ∧ r = xs ++ dst.drop xs.length := by
  unfold copy
  split
  · next h => exact ⟨fun heq => ⟨h, (Except.ok.inj heq).symm⟩, fun heq => congrArg _ heq.2.symm⟩
  · next h => exact ⟨nofun, fun heq => absurd heq.1 h⟩

omit [Zero R] in
theorem length_copy {xs dst r : List R} (h : copy xs dst = .ok r) : r.length = dst.length := by
  obtain ⟨hle, rfl⟩ := copy_eq_ok.mp h
  rw [List.length_append, List.length_drop]
  omega

/-- Behind its first `n` numbers the array is as it was at first. -/
def Padded (d n : Nat) (dst : List R) : Prop := ∃ w, w.length = n ∧ dst = w ++ List.replicate (d + 1 - n) 0

theorem padded_replicate {d n : Nat} (hn : n ≤ d + 1) : Padded d n (List.replicate (d + 1) (0 : R)) := by
  refine ⟨List.replicate n 0, List.length_replicate, ?_⟩
  rw [← List.replicate_add]
  congr 1
  omega

theorem copy_padded {d n : Nat} {xs dst : List R} (hxs : xs.length = n) (hdst : Padded d n dst) :
    copy xs dst = .ok (xs ++ List.replicate (d + 1 - n) 0) := by
  obtain ⟨w, hw, rfl⟩ := hdst
  refine copy_eq_ok.mpr ⟨?_, ?_⟩
  · rw [List.length_append, hxs, hw]
    omega
  · rw [hxs, ← hw, List.drop_left]

theorem compareFace_padded {d n : Nat} (hn : n ≤ d + 1) {m : List (Int × List R)} (hm : ∀ e ∈ m, e.2.length = n)
    (srcFeature : List R) {dst : List R} (hdst : Padded d n dst) :
    ∃ cs last, compareFace srcFeature m dst = .ok (cs, last) ∧ Padded d n last ∧
      ∀ c ∈ cs, ∃ vec, (c.s32FaceId, vec) ∈ m ∧ copy vec (List.replicate (d + 1) 0) = .ok c.dstFeature := by
  induction m generalizing dst with
  | nil => exact ⟨[], dst, rfl, hdst, nofun⟩
  | cons e m ih =>
    obtain ⟨he, hm⟩ := List.forall_mem_cons.mp hm
    have hcopy := copy_padded he hdst
    have hfirst := copy_padded he (padded_replicate hn)
    obtain ⟨cs, last, hcs, hlast, hown⟩ := ih hm ⟨e.2, he, rfl⟩
    refine ⟨⟨e.1, srcFeature, e.2 ++ List.replicate (d + 1 - n) 0⟩ :: cs, last, ?_, hlast, ?_⟩
    · rw [compareFace, hcopy, except_ok_bind, hcs, except_ok_bind]
      rfl
    · intro c hc
      rcases List.mem_cons.mp hc with rfl | hc
      · exact ⟨e.2, List.mem_cons_self, hfirst⟩
      · obtain ⟨vec, hvec, heq⟩ := hown c hc
        exact ⟨vec, List.mem_cons_of_mem e hvec, heq⟩

theorem compareFaces_padded {d n : Nat} (hn : n ≤ d + 1) {m : List (Int × List R)} (hm : ∀ e ∈ m, e.2.length = n)
    {faces : List (List R)} (hfaces : ∀ vec ∈ faces, vec.length = d) {src dst : List R} (hsrc : src.length = d + 1)
    (hdst : Padded d n dst) :
    ∃ cs, compareFaces m faces src dst = .ok cs ∧
      ∀ c ∈ cs, ∃ vec, (c.s32FaceId, vec) ∈ m ∧ copy vec (List.replicate (d + 1) 0) = .ok c.dstFeature := by
  induction faces generalizing src dst with
  | nil => exact ⟨[], rfl, nofun⟩
  | cons f faces ih =>
    obtain ⟨hf, hfaces⟩ := List.forall_mem_cons.mp hfaces
    have hsrcCopy : copy f src = .ok (f ++ src.drop f.length) := copy_eq_ok.mpr ⟨by omega, rfl⟩
    obtain ⟨cs, last, hcs, hlast, hown⟩ := compareFace_padded hn hm (f ++ src.drop f.length) hdst
    obtain ⟨rest, hrest, hown'⟩ := ih hfaces ((length_copy hsrcCopy).trans hsrc) hlast
    refine ⟨cs ++ rest, ?_, ?_⟩
    · simp only [compareFaces, hsrcCopy, except_ok_bind, hcs, hrest]
      rfl
    · intro c hc
      rcases List.mem_append.mp hc with hc | hc
      · exact hown c hc
      · exact hown' c hc

/-- A library of features of one length, no longer than the array. -/
theorem consistent_of_length_eq {d n : Nat} (hn : n ≤ d + 1) {m : List (Int × List R)} (hm : ∀ e ∈ m, e.2.length = n) :
    Consistent d m where
  fits := fun e he => by
    rw [hm e he]
    exact hn
  inside := fun faces hfaces => by
    obtain ⟨cs, hcs, -⟩ := compareFaces_padded hn hm hfaces (List.length_replicate) (padded_replicate hn)
    exact ⟨cs, hcs⟩
  own := fun faces hfaces cs hcs => by
    obtain ⟨cs', hcs', hown⟩ := compareFaces_padded hn hm hfaces (List.length_replicate) (padded_replicate hn)
    cases Except.ok.inj (hcs'.symm.trans hcs)
    exact hown

section Stale

variable {u : R} {k : Nat}

omit [Zero R] in
/-- A number that is the same in all features stays where it was once written. -/
theorem copy_stale {xs dst r : List R} (h : copy xs dst = .ok r) (hxs : ∀ x ∈ xs, x = u)
    (hk : dst[k]? = some u ∨ k < xs.length) : r[k]? = some u := by
  obtain ⟨hle, rfl⟩ := copy_eq_ok.mp h
  by_cases hlt : k < xs.length
  · rw [List.getElem?_append_left hlt, List.getElem?_eq_getElem hlt, hxs _ (List.getElem_mem hlt)]
  · have hdst := hk.resolve_right hlt
    have hidx : xs.length + (k - xs.length) = k := by omega
    rw [List.getElem?_append_right (by omega), List.getElem?_drop, hidx, hdst]

omit [Zero R] in
theorem compareFace_stale {m : List (Int × List R)} (hm : ∀ e ∈ m, ∀ x ∈ e.2, x = u) {src dst last : List R}
    {cs : List (Comparison R)} (h : compareFace src m dst = .ok (cs, last)) :
    cs.map Comparison.s32FaceId = m.map Prod.fst ∧
      (dst[k]? = some u → (∀ c ∈ cs, c.dstFeature[k]? = some u) ∧ last[k]? = some u) ∧
        ((∃ e ∈ m, k < e.2.length) → last[k]? = some u) := by
  induction m generalizing dst cs with
  | nil =>
    cases h
    exact ⟨rfl, fun hk => ⟨nofun, hk⟩, fun ⟨_, he, _⟩ => absurd he List.not_mem_nil⟩
  | cons e m ih =>
    obtain ⟨he, hm⟩ := List.forall_mem_cons.mp hm
    obtain ⟨dst', hcopy, h⟩ := except_bind_eq_ok.mp h
    obtain ⟨⟨cs', last'⟩, hrest, h⟩ := except_bind_eq_ok.mp h
    cases h
    obtain ⟨hids, hkeep, hwrite⟩ := ih hm hrest
    refine ⟨by rw [List.map_cons, List.map_cons, hids], fun hk => ?_, ?_⟩
    · have hk' := copy_stale hcopy he (.inl hk)
      obtain ⟨hcs, hlast⟩ := hkeep hk'
      exact ⟨List.forall_mem_cons.mpr ⟨hk', hcs⟩, hlast⟩
    · rintro ⟨e', he', hlt⟩
      rcases List.mem_cons.mp he' with rfl | he'
      · exact (hkeep (copy_stale hcopy he (.inr hlt))).2
      · exact hwrite ⟨e', he', hlt⟩

/-- With two faces in a frame, a shorter feature is compared with what a longer one left
behind it. -/
theorem length_eq_of_consistent {d : Nat} (hu : u ≠ 0) {m : List (Int × List R)} (hm : ∀ e ∈ m, ∀ x ∈ e.2, x = u)
    (hkeys : (m.map Prod.fst).Nodup) (h : Consistent d m) {e e' : Int × List R} (he : e ∈ m) (he' : e' ∈ m) :
    e'.2.length ≤ e.2.length := by
  by_contra hlt
  have hpos : e'.2.length - 1 < e'.2.length := by omega
  have hfaces : ∀ vec ∈ [List.replicate d (0 : R), List.replicate d 0], vec.length = d := by
    intro vec hvec
    rcases List.mem_cons.mp hvec with rfl | hvec
    · exact List.length_replicate
    · rw [List.mem_singleton.mp hvec, List.length_replicate]
  obtain ⟨cs, hcs⟩ := h.inside _ hfaces
  have hown := h.own _ hfaces cs hcs
  obtain ⟨src₁, -, hrun⟩ := except_bind_eq_ok.mp hcs
  obtain ⟨⟨cs₁, dst₁⟩, hfirst, hrun⟩ := except_bind_eq_ok.mp hrun
  obtain ⟨rest, hrun, hend⟩ := except_bind_eq_ok.mp hrun
  obtain ⟨src₂, -, hrun⟩ := except_bind_eq_ok.mp hrun
  obtain ⟨⟨cs₂, dst₂⟩, hsecond, hrun⟩ := except_bind_eq_ok.mp hrun
  cases hrun
  cases hend
  have hleft : dst₁[e'.2.length - 1]? = some u := (compareFace_stale hm hfirst).2.2 ⟨e', he', hpos⟩
  obtain ⟨hids, hkeep, -⟩ := compareFace_stale (k := e'.2.length - 1) hm hsecond
  have hid : e.1 ∈ cs₂.map Comparison.s32FaceId := by
    rw [hids]
    exact List.mem_map_of_mem he
  obtain ⟨c, hc, hce⟩ := List.mem_map.mp hid
  have hstale := (hkeep hleft).1 c hc
  obtain ⟨vec, hvec, hcopy⟩ := hown c (List.mem_append_right _ (List.mem_append_left _ hc))
  have hvec' : (c.s32FaceId, vec) = e := List.inj_on_of_nodup_map hkeys hvec he hce
  obtain ⟨-, hdst⟩ := copy_eq_ok.mp hcopy
  have hveclen : vec.length = e.2.length := by rw [← hvec']
  have hfit := h.fits e' he'
  rw [hdst, List.getElem?_append_right (by omega), List.getElem?_drop, List.getElem?_replicate,
    if_pos (by omega)] at hstale
  exact hu (Option.some.inj hstale).symm

end Stale

end Perception.Alg
