import Perception.Cfg.Update
import Mathlib.Data.List.TakeWhile

/-!
# The allocation of indices

The index loop of `RuntimeSysCfgUpdate` reads the configuration through `operator[]`,
which inserts what is missing. Here: when the loop throws without having inserted
anything, and when the node that it makes is the one already there.
-/
namespace Perception.Cfg

set_option autoImplicit false

open Perception.Lib StateExcept

/-- How a walk through the configuration ends: it returns, it throws, or it inserts. -/
inductive Walk where
  | passes
  | stops
  | inserts

/-- The walk of the first loop over the entries of a sub-node. -/
def walkEntries : List Json → Walk
  | [] => .passes
  | .object m :: objs =>
    match SortedMap.find? m strAttriIdx with
    | some (.string _) => walkEntries objs
    | some _ => .stops
    | none => .inserts
  | .null :: _ => .inserts
  | _ :: _ => .stops

/-- The walk of the first loop through a root node to the sub-node `k`. -/
def walkSubNode (node : Option Json) (k : String) : Walk :=
  match node with
  | none => .inserts
  | some .null => .inserts
  | some (.object subs) =>
    match SortedMap.find? subs k with
    | none => .inserts
    | some v => walkEntries v.elems
  | some _ => .stops

theorem readStr_idx_object (m : List (String × Json)) :
    (Json.object m).readStr [.key strAttriIdx] =
      (((SortedMap.find? m strAttriIdx).getD .null).toStr,
        .object (SortedMap.insert m strAttriIdx ((SortedMap.find? m strAttriIdx).getD .null))) := rfl

/-- What the first loop makes of the entries, by how its walk ends. -/
theorem maxIdx_of_walk (n : Int) (objs : List Json) :
    match walkEntries objs with
    | .passes => ∃ M, maxIdx n objs = (.ok M, objs)
    | .stops => ∃ e, maxIdx n objs = (.error e, objs)
    | .inserts => ∃ e objs', maxIdx n objs = (.error e, objs') ∧ objs' ≠ objs ∧ objs'.length = objs.length := by
  induction objs generalizing n with
  | nil => exact ⟨n, rfl⟩
  | cons obj objs ih =>
    cases obj with
    | object m =>
      have hread := readStr_idx_object m
      cases hf : SortedMap.find? m strAttriIdx with
      | none =>
        rw [hf] at hread
        have hwalk : walkEntries (.object m :: objs) = .inserts := by rw [walkEntries, hf]
        rw [hwalk]
        refine ⟨_, .object (SortedMap.insert m strAttriIdx .null) :: objs, by rw [maxIdx, hread]; rfl, ?_, rfl⟩
        intro heq
        have hm : SortedMap.insert m strAttriIdx .null = m := Json.object.inj (List.cons.inj heq).1
        rw [← hm, SortedMap.find?_insert_self] at hf
        cases hf
      | some v =>
        rw [hf, Option.getD_some, SortedMap.insert_of_find? hf] at hread
        cases v with
        | string i =>
          have hwalk : walkEntries (.object m :: objs) = walkEntries objs := by rw [walkEntries, hf]
          rw [hwalk]
          have hmax : maxIdx n (.object m :: objs) =
              ((maxIdx (if i ≠ "-1" then max n (atoi i) else n) objs).1,
                .object m :: (maxIdx (if i ≠ "-1" then max n (atoi i) else n) objs).2) := by
            rw [maxIdx, hread]
            rfl
          rw [hmax]
          have ih := ih (if i ≠ "-1" then max n (atoi i) else n)
          cases hw : walkEntries objs with
          | passes =>
            rw [hw] at ih
            obtain ⟨M, hM⟩ := ih
            exact ⟨M, by rw [hM]⟩
          | stops =>
            rw [hw] at ih
            obtain ⟨e, he⟩ := ih
            exact ⟨e, by rw [he]⟩
          | inserts =>
            rw [hw] at ih
            obtain ⟨e, objs', he, hne, hlen⟩ := ih
            exact ⟨e, .object m :: objs', by rw [he], fun heq => hne (List.cons.inj heq).2,
              congrArg (· + 1) hlen⟩
        | _ =>
          have hwalk : walkEntries (.object m :: objs) = .stops := by rw [walkEntries, hf]
          rw [hwalk]
          exact ⟨_, by rw [maxIdx, hread]; rfl⟩
    | null =>
      refine ⟨_, .object [(strAttriIdx, .null)] :: objs, rfl, ?_, rfl⟩
      intro heq
      cases (List.cons.inj heq).1
    | _ => exact ⟨_, rfl⟩

/-- The first loop, on what `m_jRuntimeSysCfg[strRootNode][strSubNodeKey]` refers to. -/
def scanEntries (v : Json) : Except Exn Int × Json :=
  ((maxIdx 0 v.elems).1, v.withElems (maxIdx 0 v.elems).2)

/-- Whether the node has the sub-node. -/
def hasSub (node : Option Json) (k : String) : Bool :=
  match node with
  | some (.object subs) => (SortedMap.find? subs k).isSome
  | _ => false

namespace Json

theorem elems_withElems_object {m : List (String × Json)} {objs : List Json} (h : objs.length = m.length) :
    ((object m).withElems objs).elems = objs := by
  rw [withElems, elems_object]
  induction m generalizing objs with
  | nil => exact (List.eq_nil_of_length_eq_zero h).symm
  | cons e m ih =>
    cases objs with
    | nil => cases h
    | cons obj objs => exact congrArg (obj :: ·) (ih (Nat.succ.inj h))

theorem isObject_of_attr {j : Json} {k t : String} (h : j.attr k = .ok t) : j.isObject = true := by
  cases j with
  | object m => rfl
  | _ => cases h

/-- Values put back under a list of objects. -/
theorem elems_withElems {j : Json} {objs : List Json} (hlen : objs.length = j.elems.length)
    (hobj : ∀ elm ∈ j.elems, elm.isObject = true) : (j.withElems objs).elems = objs := by
  cases j with
  | null => exact (List.eq_nil_of_length_eq_zero hlen).symm
  | array xs => exact elems_array objs
  | object m =>
    rw [elems_object, List.length_map] at hlen
    exact elems_withElems_object hlen
  | _ => cases hobj _ (List.mem_singleton_self _)

end Json

theorem onPath_scan_object (k : String) (subs : List (String × Json)) :
    Json.onPath scanEntries [.key k] (.object subs) =
      ((scanEntries ((SortedMap.find? subs k).getD .null)).1,
        .object (SortedMap.insert subs k (scanEntries ((SortedMap.find? subs k).getD .null)).2)) := rfl

/-- A scan that returns leaves what it looked at. -/
theorem scanEntries_of_ok {v : Json} {M : Int} (h : (scanEntries v).1 = .ok M) : (scanEntries v).2 = v := by
  have hwalk := maxIdx_of_walk 0 v.elems
  unfold scanEntries at h ⊢
  split at hwalk
  · obtain ⟨M', hM'⟩ := hwalk
    rw [hM', Json.withElems_elems]
  · obtain ⟨e, he⟩ := hwalk
    rw [he] at h
    cases h
  · obtain ⟨e, objs', he, -⟩ := hwalk
    rw [he] at h
    cases h

/-- The walk keeps the sub-nodes that are there. -/
theorem hasSub_onPath (k k' : String) {node : Json} (h : hasSub (some node) k' = true) :
    hasSub (some (Json.onPath scanEntries [.key k] node).2) k' = true := by
  cases node with
  | object subs =>
    rw [onPath_scan_object, hasSub, SortedMap.find?_insert]
    split
    · rfl
    · exact h
  | _ => cases h

/-- Where the walk returns, it reads the largest index of the sub-node, and no sub-node
reads differently afterwards. -/
theorem onPath_scan_of_ok {k : String} {node : Json} {M : Int}
    (h : (Json.onPath scanEntries [.key k] node).1 = .ok M) :
    (maxIdx 0 (node.get k).elems).1 = .ok M ∧ hasSub (some (Json.onPath scanEntries [.key k] node).2) k = true ∧
      ∀ k', (Json.onPath scanEntries [.key k] node).2.get k' = node.get k' := by
  cases node with
  | null =>
    refine ⟨h, by simp [Json.onPath, hasSub, SortedMap.find?], fun k' => ?_⟩
    show (SortedMap.find? [(k, scanEntries .null |>.2)] k').getD .null = .null
    rw [SortedMap.find?_cons]
    split <;> rfl
  | object subs =>
    rw [onPath_scan_object] at h ⊢
    refine ⟨h, by simp [hasSub], fun k' => ?_⟩
    rw [scanEntries_of_ok h, Json.get, Json.get, Json.find?_object, Json.find?_object, SortedMap.find?_insert]
    split
    · next hk =>
      rw [hk]
      rfl
    · rfl
  | _ => cases h

/-- Whether the entry has an idx that can be read. -/
def hasIdx (obj : Json) : Bool := (obj.attr strAttriIdx).isOk

theorem hasIdx_iff {obj : Json} : hasIdx obj = true ↔ ∃ i, obj.attr strAttriIdx = .ok i := by
  unfold hasIdx
  cases obj.attr strAttriIdx <;> simp [Except.isOk, Except.toBool]

theorem incr_eq_ok {n n' : Int} : incr n = .ok n' ↔ n < 2147483647 ∧ n' = n + 1 := by
  unfold incr
  split <;> simp [*, eq_comm]

/-- One turn of the second loop: the entry gets the next index, or stays. -/
theorem fillIdx_cons_eq_ok {M : Int} {obj : Json} {objs objs' : List Json}
    (h : fillIdx M (obj :: objs) = .ok objs') :
    ∃ i obj' M' rest, obj.attr strAttriIdx = .ok i ∧ fillIdx M' objs = .ok rest ∧ objs' = obj' :: rest ∧ M ≤ M' ∧
      if i = "-1" then M' = M + 1 ∧ M < 2147483647 ∧ obj' = obj.put strAttriIdx (.string (toString M')) ∧
        obj'.attr strAttriIdx = .ok (toString M')
      else M' = M ∧ obj' = obj := by
  obtain ⟨i, hi, h⟩ := except_bind_eq_ok.mp h
  split at h
  · next hnew =>
    obtain ⟨M', hM', h₁⟩ := except_bind_eq_ok.mp h
    obtain ⟨obj', hset, h₂⟩ := except_bind_eq_ok.mp h₁
    obtain ⟨rest, hrest, h₃⟩ := except_bind_eq_ok.mp h₂
    obtain ⟨hlt, rfl⟩ := incr_eq_ok.mp hM'
    obtain rfl : obj' :: rest = objs' := Except.ok.inj h₃
    refine ⟨i, obj', M + 1, rest, hi, hrest, rfl, by omega, ?_⟩
    rw [if_pos hnew]
    cases obj with
    | object m =>
      cases hset
      refine ⟨rfl, hlt, rfl, ?_⟩
      rw [Json.attr_eq_ok]
      exact SortedMap.find?_insert_self _ _ _
    | _ => cases hi
  · next hold =>
    obtain ⟨rest, hrest, h⟩ := except_bind_eq_ok.mp h
    obtain rfl : obj :: rest = objs' := Except.ok.inj h
    refine ⟨i, obj, M, rest, hi, hrest, rfl, le_refl M, ?_⟩
    rw [if_neg hold]
    exact ⟨rfl, rfl⟩

theorem fillIdx_of_ok {M : Int} {objs objs' : List Json} (h : fillIdx M objs = .ok objs') :
    objs.all hasIdx = true ∧ objs'.length = objs.length := by
  induction objs generalizing M objs' with
  | nil =>
    cases h
    exact ⟨rfl, rfl⟩
  | cons obj objs ih =>
    obtain ⟨i, obj', M', rest, hi, hrest, rfl, -, -⟩ := fillIdx_cons_eq_ok h
    obtain ⟨hall, hlen⟩ := ih hrest
    rw [List.all_cons, hasIdx_iff.mpr ⟨i, hi⟩, hall]
    exact ⟨rfl, congrArg (· + 1) hlen⟩

/-- The entries that the second loop made are those of the sub-node. -/
theorem elems_withElems_fillIdx {v : Json} {M : Int} {objs : List Json} (h : fillIdx M v.elems = .ok objs) :
    (v.withElems objs).elems = objs := by
  obtain ⟨hall, hlen⟩ := fillIdx_of_ok h
  apply Json.elems_withElems hlen
  intro elm helm
  obtain ⟨i, hi⟩ := hasIdx_iff.mp (List.all_eq_true.mp hall elm helm)
  exact Json.isObject_of_attr hi

/-- Whether the index loop throws without having inserted anything: at a sub-node without a
key, at one that cannot be walked to, or at a new entry without an idx. -/
def stopsClean (node : Option Json) : List (Option String × Json) → Bool
  | [] => false
  | (none, _) :: _ => true
  | (some k, v) :: its =>
    match walkSubNode node k with
    | .inserts => false
    | .stops => true
    | .passes => !v.elems.all hasIdx || stopsClean node its

/-- What the index loop makes of a sub-node, the root node being `old`. -/
def Allocated (old : Json) (it : Option String × Json) (v : Json) : Prop :=
  ∃ k M objs, it.1 = some k ∧ (maxIdx 0 (old.get k).elems).1 = .ok M ∧ fillIdx M it.2.elems = .ok objs ∧
    v = it.2.withElems objs

namespace CfgMng

theorem allocSubNode_of_error {r k : String} {v j : Json} {s : CfgMng} {e : Exn}
    (h : Json.onPath scanEntries [.key r, .key k] s.m_jRuntimeSysCfg = (.error e, j)) :
    allocSubNode r (some k, v) s = .error e { s with m_jRuntimeSysCfg := j } :=
  (bind_of_ok rfl).trans (bind_of_error (onCfg_of_error h))

theorem allocSubNode_of_ok {r k : String} {v j : Json} {s : CfgMng} {M : Int}
    (h : Json.onPath scanEntries [.key r, .key k] s.m_jRuntimeSysCfg = (.ok M, j)) :
    allocSubNode r (some k, v) s =
      match fillIdx M v.elems with
      | .ok objs => .ok (v.withElems objs) { s with m_jRuntimeSysCfg := j }
      | .error e => .error e { s with m_jRuntimeSysCfg := j } := by
  have hb : allocSubNode r (some k, v) s = (do
      let objs ← fromExcept (fillIdx M v.elems)
      pure (v.withElems objs) : Cmd Json) { s with m_jRuntimeSysCfg := j } := bind_of_ok (onCfg_of_ok h)
  rw [hb]
  cases fillIdx M v.elems <;> rfl

/-- The configuration stays a document, and the sub-nodes of `r` stay. -/
structure Grows (r : String) (s s' : CfgMng) : Prop where
  document : s.m_jRuntimeSysCfg.Document → s'.m_jRuntimeSysCfg.Document
  sub : s.m_jRuntimeSysCfg.Document → ∀ k, hasSub (s.m_jRuntimeSysCfg.find? r) k = true →
    hasSub (s'.m_jRuntimeSysCfg.find? r) k = true

theorem Grows.refl (r : String) (s : CfgMng) : Grows r s s := ⟨id, fun _ _ => id⟩

theorem Grows.trans {r : String} {s s₁ s' : CfgMng} (h : Grows r s s₁) (h' : Grows r s₁ s') : Grows r s s' where
  document := h'.document ∘ h.document
  sub hd k hk := h'.sub (h.document hd) k (h.sub hd k hk)

theorem grows_fromExcept {α : Type} (r : String) (x : Except Exn α) (s : CfgMng) :
    Grows r s (stateOf ((fromExcept x : Cmd α) s)) := by
  cases x <;> exact Grows.refl r s

theorem grows_scan (r k : String) (s : CfgMng) :
    Grows r s (stateOf (onCfg (Json.onPath scanEntries [.key r, .key k]) s)) := by
  rw [stateOf_onCfg]
  refine ⟨fun hd => ?_, fun hd k' hk' => ?_⟩
  · show (Json.onPath scanEntries [.key r, .key k] s.m_jRuntimeSysCfg).2.Document
    rw [hd.onPath_key]
    exact hd.put _ _
  · show hasSub ((Json.onPath scanEntries [.key r, .key k] s.m_jRuntimeSysCfg).2.find? r) k' = true
    rw [hd.onPath_key, hd.find?_put, if_pos rfl]
    cases hf : s.m_jRuntimeSysCfg.find? r with
    | none =>
      rw [hf] at hk'
      cases hk'
    | some node =>
      rw [hf] at hk'
      rw [Json.get_of_find? hf]
      exact hasSub_onPath k k' hk'

theorem grows_allocSubNode (r : String) (it : Option String × Json) (s : CfgMng) :
    Grows r s (stateOf (allocSubNode r it s)) := by
  unfold allocSubNode
  refine stateOf_bind_rel (R := Grows r) Grows.trans (grows_fromExcept r _ s) fun k s₁ _ => ?_
  refine stateOf_bind_rel (R := Grows r) Grows.trans (grows_scan r k s₁) fun n s₂ _ => ?_
  refine stateOf_bind_rel (R := Grows r) Grows.trans (grows_fromExcept r _ s₂) fun _ s₃ _ => ?_
  exact Grows.refl r s₃

theorem grows_allocSubNodes (r : String) (its : List (Option String × Json)) (s : CfgMng) :
    Grows r s (stateOf (allocSubNodes r its s)) := by
  induction its generalizing s with
  | nil => exact Grows.refl r s
  | cons it its ih =>
    unfold allocSubNodes
    refine stateOf_bind_rel (R := Grows r) Grows.trans (grows_allocSubNode r it s) fun v s₁ _ => ?_
    refine stateOf_bind_rel (R := Grows r) Grows.trans (ih s₁) fun _ s₂ _ => ?_
    exact Grows.refl r s₂

/-- The turn for a sub-node that returns. -/
theorem allocSubNode_ok {r : String} {it : Option String × Json} {s s₁ : CfgMng} {v : Json}
    (hd : s.m_jRuntimeSysCfg.Document) (h : allocSubNode r it s = .ok v s₁) :
    Allocated (s.m_jRuntimeSysCfg.get r) it v ∧
      (∃ k, it.1 = some k ∧ hasSub (s₁.m_jRuntimeSysCfg.find? r) k = true) ∧
      ∀ k, (s₁.m_jRuntimeSysCfg.get r).get k = (s.m_jRuntimeSysCfg.get r).get k := by
  obtain ⟨key, w⟩ := it
  cases key with
  | none => cases h
  | some k =>
    rcases hp : Json.onPath scanEntries [.key r, .key k] s.m_jRuntimeSysCfg with ⟨res, j⟩
    cases res with
    | error e =>
      rw [allocSubNode_of_error hp] at h
      cases h
    | ok M =>
      rw [allocSubNode_of_ok hp] at h
      cases hfill : fillIdx M w.elems with
      | error e =>
        rw [hfill] at h
        cases h
      | ok objs =>
        rw [hfill] at h
        cases h
        rw [hd.onPath_key] at hp
        obtain ⟨hM, rfl⟩ := Prod.mk.inj hp
        obtain ⟨hmax, hsub, hget⟩ := onPath_scan_of_ok hM
        have hfind : (s.m_jRuntimeSysCfg.put r
            (Json.onPath scanEntries [.key k] (s.m_jRuntimeSysCfg.get r)).2).find? r =
              some (Json.onPath scanEntries [.key k] (s.m_jRuntimeSysCfg.get r)).2 := by
          rw [hd.find?_put, if_pos rfl]
        refine ⟨⟨k, M, objs, rfl, hmax, hfill, rfl⟩, ⟨k, rfl, ?_⟩, fun k' => ?_⟩
        · show hasSub (Json.find? _ r) k = true
          rw [hfind]
          exact hsub
        · show (Json.get _ r).get k' = _
          rw [Json.get_of_find? hfind]
          exact hget k'

/-- The index loop that returns. -/
theorem allocSubNodes_ok {r : String} {its : List (Option String × Json)} {s s₁ : CfgMng} {vs : List Json}
    (hd : s.m_jRuntimeSysCfg.Document) (h : allocSubNodes r its s = .ok vs s₁) :
    List.Forall₂ (Allocated (s.m_jRuntimeSysCfg.get r)) its vs ∧
      ∀ it ∈ its, ∃ k, it.1 = some k ∧ hasSub (s₁.m_jRuntimeSysCfg.find? r) k = true := by
  induction its generalizing s vs with
  | nil =>
    cases h
    exact ⟨.nil, by simp⟩
  | cons it its ih =>
    obtain ⟨v, t, hv, h⟩ := bind_eq_ok.mp h
    obtain ⟨ws, t', hws, h⟩ := bind_eq_ok.mp h
    cases h
    obtain ⟨halloc, ⟨k, hk, hsub⟩, hget⟩ := allocSubNode_ok hd hv
    have hgrow := grows_allocSubNode r it s
    have hgrows := grows_allocSubNodes r its t
    rw [hv] at hgrow
    rw [hws] at hgrows
    have hdt := hgrow.document hd
    obtain ⟨hrest, hsubs⟩ := ih hdt hws
    refine ⟨.cons halloc (hrest.imp ?_), List.forall_mem_cons.mpr ⟨⟨k, hk, hgrows.sub hdt k hsub⟩, hsubs⟩⟩
    rintro it' v' ⟨k', M, objs, hk', hM, hfill, hv'⟩
    exact ⟨k', M, objs, hk', by rw [← hget]; exact hM, hfill, hv'⟩

end CfgMng

theorem isspace_of_isDigit {c : Char} (h : c.isDigit = true) : isspace c = false := by
  simp only [Char.isDigit, Bool.and_eq_true, decide_eq_true_eq] at h
  have h₁ : 48 ≤ c.toNat := h.1
  have h₂ : c.toNat ≤ 57 := h.2
  simp only [isspace, Bool.or_eq_false_iff, beq_eq_false_iff_ne, Bool.and_eq_false_iff, decide_eq_false_iff_not]
  omega

/-- `atoi` of digits only. -/
theorem atoi_of_digits {s : String} (h : ∀ c ∈ s.toList, c.isDigit = true) :
    atoi s = (min (Nat.ofDigitChars 10 s.toList 0 : Int) 9223372036854775807).bmod 4294967296 := by
  have hdrop : s.toList.dropWhile isspace = s.toList := by
    rw [List.dropWhile_eq_self_iff]
    intro hl
    rw [Bool.not_eq_true]
    exact isspace_of_isDigit (h _ (List.get_mem _ _))
  have htake : s.toList.takeWhile Char.isDigit = s.toList := List.takeWhile_eq_self_iff.mpr h
  have hsign : sign s.toList = (false, s.toList) := by
    unfold sign
    split
    · next cs hs => exact absurd (h '-' (by rw [hs]; exact List.mem_cons_self)) (by decide)
    · next cs hs => exact absurd (h '+' (by rw [hs]; exact List.mem_cons_self)) (by decide)
    · rfl
  unfold atoi
  simp only [hdrop, hsign, htake]
  rfl

theorem atoi_toString_nat (n : Nat) :
    atoi (toString n) = (min (n : Int) 9223372036854775807).bmod 4294967296 := by
  have hchars : (toString n).toList = Nat.toDigits 10 n := Nat.toList_repr
  rw [atoi_of_digits, hchars, Nat.ofDigitChars_ten_toDigits]
  intro c hc
  rw [hchars] at hc
  exact Nat.isDigit_of_mem_toDigits (by decide) (by decide) hc

theorem atoi_toString_of_le {n : Nat} (h : n ≤ 2147483647) : atoi (toString n) = n := by
  rw [atoi_toString_nat, min_eq_left (by omega), Int.bmod_eq_of_le (by omega) (by omega)]

theorem atoi_toString {n : Int} (h₀ : 0 ≤ n) (h₁ : n ≤ 2147483647) : atoi (toString n) = n := by
  obtain ⟨k, rfl⟩ := Int.eq_ofNat_of_zero_le h₀
  show atoi (toString k) = k
  exact atoi_toString_of_le (by omega)

theorem toString_ne_minus_one {n : Int} (h₀ : 0 ≤ n) (h₁ : n ≤ 2147483647) : toString n ≠ "-1" := by
  intro h
  have hn := atoi_toString h₀ h₁
  rw [h] at hn
  have hminus : atoi "-1" = -1 := by decide +kernel
  omega

/-- The largest index bounds all that are in use. -/
theorem maxIdx_le {n M : Int} {objs : List Json} (h : (maxIdx n objs).1 = .ok M) :
    n ≤ M ∧ ∀ obj ∈ objs, ∀ i, obj.attr strAttriIdx = .ok i → i ≠ "-1" → atoi i ≤ M := by
  induction objs generalizing n with
  | nil =>
    cases h
    exact ⟨le_refl _, by simp⟩
  | cons obj objs ih =>
    rw [maxIdx] at h
    rcases hread : obj.readStr [.key strAttriIdx] with ⟨res, obj'⟩
    cases res with
    | error e =>
      rw [hread] at h
      cases h
    | ok i =>
      rw [hread] at h
      change (maxIdx (if i ≠ "-1" then max n (atoi i) else n) objs).1 = .ok M at h
      obtain ⟨hle, hrest⟩ := ih h
      have hattr : obj.attr strAttriIdx = .ok i := by
        cases obj with
        | object m => exact congrArg Prod.fst hread
        | _ => cases hread
      refine ⟨?_, List.forall_mem_cons.mpr ⟨fun i' hi' hne => ?_, hrest⟩⟩
      · split at hle
        · exact (le_max_left _ _).trans hle
        · exact hle
      · obtain rfl : i = i' := Except.ok.inj (hattr.symm.trans hi')
        rw [if_pos hne] at hle
        exact (le_max_right _ _).trans hle

/-- Every member of the node is a sub-node with entries that have an index. -/
def Assigned (j : Json) : Prop :=
  ∀ it ∈ j.items, (∃ k, it.1 = some k) ∧
    ∀ elm ∈ it.2.elems, ∃ i, elm.attr strAttriIdx = .ok i ∧ i ≠ "-1"

namespace CfgMng

end CfgMng

end Perception.Cfg
