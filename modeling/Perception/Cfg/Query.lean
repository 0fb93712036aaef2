import Perception.Cfg.Allocation
import Perception.Cfg.LoadCfg
import Perception.Cfg.Mirror

/-!
# When a query leaves the configuration alone

The queries read through the `operator[]` that inserts. They leave the configuration alone
exactly when every element that they get to is there. An insertion is never undone, since
a chain of accesses never makes the tree smaller.
-/
namespace Perception.Cfg

set_option autoImplicit false

open Perception.Lib Perception.Db StateExcept

/-- First one walk, then, if it passes, the other. -/
def Walk.andThen : Walk → Walk → Walk
  | .passes, w => w
  | w, _ => w

instance : DecidableEq Walk := fun a b => by
  cases a <;> cases b <;> first
    | exact isTrue rfl
    | exact isFalse (by simp)

namespace Json

/-- How a chain of accesses ends. -/
def walkPath : List Access → Json → Walk
  | [], _ => .passes
  | _ :: _, .null => .inserts
  | .key k :: p, .object m =>
    match SortedMap.find? m k with
    | some v => walkPath p v
    | none => .inserts
  | .idx n :: p, .array xs =>
    match xs[n]? with
    | some v => walkPath p v
    | none => .inserts
  | _ :: _, _ => .stops

/-- What a chain that passes refers to. -/
def valueAt : List Access → Json → Json
  | [], j => j
  | .key k :: p, .object m => valueAt p ((SortedMap.find? m k).getD .null)
  | .idx n :: p, .array xs => valueAt p (xs.getD n .null)
  | _ :: _, j => j

theorem sizeOf_replace {m : List (String × Json)} {k : String} {old : Json} (v : Json)
    (h : SortedMap.find? m k = some old) :
    sizeOf (SortedMap.replace m k v) + sizeOf old = sizeOf m + sizeOf v := by
  induction m with
  | nil => cases h
  | cons e m ih =>
    rw [SortedMap.find?_cons] at h
    rw [SortedMap.replace]
    by_cases hk : k = e.1
    · rw [if_pos hk] at h
      obtain rfl := Option.some.inj h
      obtain ⟨k', v'⟩ := e
      obtain rfl : k = k' := hk
      rw [if_pos rfl]
      simp only [List.cons.sizeOf_spec, Prod.mk.sizeOf_spec]
      omega
    · rw [if_neg hk] at h
      have := ih h
      rw [if_neg hk]
      simp only [List.cons.sizeOf_spec]
      omega

theorem sizeOf_lt_place (m : List (String × Json)) (k : String) (v : Json) :
    sizeOf m < sizeOf (SortedMap.place m k v) := by
  induction m with
  | nil =>
    show sizeOf ([] : List (String × Json)) < sizeOf [(k, v)]
    simp only [List.cons.sizeOf_spec, List.nil.sizeOf_spec, Prod.mk.sizeOf_spec]
    omega
  | cons e m ih =>
    rw [SortedMap.place]
    split
    · simp only [List.cons.sizeOf_spec, Prod.mk.sizeOf_spec]
      omega
    · simp only [List.cons.sizeOf_spec]
      omega

theorem sizeOf_insert_new {m : List (String × Json)} {k : String} (v : Json) (h : SortedMap.find? m k = none) :
    sizeOf m < sizeOf (SortedMap.insert m k v) := by
  rw [SortedMap.insert, h]
  exact sizeOf_lt_place m k v

theorem sizeOf_insert_old {m : List (String × Json)} {k : String} {old : Json} (v : Json)
    (h : SortedMap.find? m k = some old) :
    sizeOf (SortedMap.insert m k v) + sizeOf old = sizeOf m + sizeOf v := by
  rw [SortedMap.insert, h]
  exact sizeOf_replace v h

theorem sizeOf_set {xs : List Json} {n : Nat} {old : Json} (v : Json) (h : xs[n]? = some old) :
    sizeOf (xs.set n v) + sizeOf old = sizeOf xs + sizeOf v := by
  induction xs generalizing n with
  | nil => cases h
  | cons x xs ih =>
    cases n with
    | zero =>
      obtain rfl : x = old := Option.some.inj h
      simp only [List.set_cons_zero, List.cons.sizeOf_spec]
      omega
    | succ n =>
      have := ih h
      simp only [List.set_cons_succ, List.cons.sizeOf_spec]
      omega

theorem sizeOf_null_le (v : Json) : sizeOf Json.null ≤ sizeOf v := by
  cases v <;> simp

theorem sizeOf_lt_append (xs : List Json) {ys : List Json} (h : ys ≠ []) : sizeOf xs < sizeOf (xs ++ ys) := by
  induction xs with
  | nil =>
    cases ys with
    | nil => exact absurd rfl h
    | cons y ys =>
      have hpos := sizeOf_null_le y
      simp only [null.sizeOf_spec] at hpos
      simp only [List.nil_append, List.cons.sizeOf_spec, List.nil.sizeOf_spec]
      omega
  | cons x xs ih =>
    simp only [List.cons_append, List.cons.sizeOf_spec]
    omega

variable {α : Type} {f : Json → Except Exn α × Json}

theorem onPath_idx_old (p : List Access) {xs : List Json} {n : Nat} {v : Json} (h : xs[n]? = some v) :
    onPath f (.idx n :: p) (.array xs) = ((onPath f p v).1, .array (xs.set n (onPath f p v).2)) := by
  have hlt : n < xs.length := (List.getElem?_eq_some_iff.mp h).1
  have hpad : xs ++ List.replicate (n + 1 - xs.length) Json.null = xs := by
    rw [Nat.sub_eq_zero_of_le hlt, List.replicate_zero, List.append_nil]
  have hget : xs.getD n .null = v := by rw [List.getD_eq_getElem?_getD, h, Option.getD_some]
  show ((onPath f p ((xs ++ List.replicate (n + 1 - xs.length) Json.null).getD n .null)).1,
    Json.array ((xs ++ List.replicate (n + 1 - xs.length) Json.null).set n
      (onPath f p ((xs ++ List.replicate (n + 1 - xs.length) Json.null).getD n .null)).2)) = _
  rw [hpad, hget]

/-- The padding of an array that is too short stays. -/
theorem sizeOf_idx_new (p : List Access) {xs : List Json} {n : Nat} (h : xs[n]? = none) :
    sizeOf (Json.array xs) < sizeOf (onPath f (.idx n :: p) (.array xs)).2 := by
  have hle : xs.length ≤ n := List.getElem?_eq_none_iff.mp h
  have hne : List.replicate (n + 1 - xs.length) Json.null ≠ [] := by
    intro hnil
    have := congrArg List.length hnil
    simp at this
    omega
  have hold : (xs ++ List.replicate (n + 1 - xs.length) Json.null)[n]? = some .null := by
    rw [List.getElem?_append_right hle, List.getElem?_replicate_of_lt (by omega)]
  generalize hv : (onPath f p ((xs ++ List.replicate (n + 1 - xs.length) Json.null).getD n .null)).2 = v
  have hpad := sizeOf_lt_append xs hne
  have hset := sizeOf_set v hold
  have hnull := sizeOf_null_le v
  show sizeOf (Json.array xs) < sizeOf (Json.array ((xs ++ List.replicate (n + 1 - xs.length) Json.null).set n
    (onPath f p ((xs ++ List.replicate (n + 1 - xs.length) Json.null).getD n .null)).2))
  rw [hv]
  simp only [array.sizeOf_spec]
  omega

/-- What a chain of accesses to `j` that ends in a read comes to: where it passes, the
result `a`, where it stops, an exception, with the tree as it was; where it inserts, a
larger tree. -/
def Ends (w : Walk) (j : Json) (a : Except Exn α) (r : Except Exn α × Json) : Prop :=
  match w with
  | .passes => r = (a, j)
  | .stops => ∃ e, r = (.error e, j)
  | .inserts => sizeOf j < sizeOf r.2

/-- The access in front of a chain puts back what the chain leaves. -/
theorem Ends.wrap {w : Walk} {v j : Json} {a : Except Exn α} {r : Except Exn α × Json} (h : Ends w v a r)
    (put : Json → Json) (hput : put v = j) (hsize : ∀ v', sizeOf (put v') + sizeOf v = sizeOf j + sizeOf v') :
    Ends w j a (r.1, put r.2) := by
  cases w with
  | passes =>
    obtain rfl : r = (a, v) := h
    exact Prod.ext rfl hput
  | stops =>
    obtain ⟨e, rfl⟩ := h
    exact ⟨e, Prod.ext rfl hput⟩
  | inserts =>
    have hlt : sizeOf v < sizeOf r.2 := h
    have := hsize r.2
    show sizeOf j < sizeOf (put r.2)
    omega

theorem ends_onPath (hread : ∀ v, (f v).2 = v) (p : List Access) (j : Json) :
    Ends (walkPath p j) j (f (valueAt p j)).1 (onPath f p j) := by
  induction p generalizing j with
  | nil => exact Prod.ext rfl (hread j)
  | cons a p ih =>
    cases a with
    | key k =>
      cases j with
      | null =>
        show sizeOf Json.null < sizeOf (Json.object [(k, _)])
        simp
      | object m =>
        have hpath : onPath f (.key k :: p) (.object m) =
            ((onPath f p ((SortedMap.find? m k).getD .null)).1,
              .object (SortedMap.insert m k (onPath f p ((SortedMap.find? m k).getD .null)).2)) := rfl
        rw [hpath, valueAt]
        cases hf : SortedMap.find? m k with
        | none =>
          have hwalk : walkPath (.key k :: p) (.object m) = .inserts := by rw [walkPath, hf]
          have hsize := sizeOf_insert_new (onPath f p ((none : Option Json).getD .null)).2 hf
          rw [hwalk]
          show sizeOf (Json.object m) < sizeOf (Json.object _)
          simp only [object.sizeOf_spec]
          omega
        | some v =>
          have hwalk : walkPath (.key k :: p) (.object m) = walkPath p v := by rw [walkPath, hf]
          rw [hwalk, Option.getD_some]
          refine (ih v).wrap (fun v' => object (SortedMap.insert m k v')) (congrArg object (SortedMap.insert_of_find? hf)) fun v' => ?_
          have hsize := sizeOf_insert_old v' hf
          simp only [object.sizeOf_spec]
          omega
      | _ => exact ⟨_, rfl⟩
    | idx n =>
      cases j with
      | null =>
        show sizeOf Json.null < sizeOf (Json.array (List.replicate n .null ++ [_]))
        have hpos := sizeOf_lt_append ([] : List Json) (List.append_ne_nil_of_right_ne_nil
          (List.replicate n Json.null) (List.cons_ne_nil (onPath f p .null).2 []))
        simp only [List.nil_append, List.nil.sizeOf_spec] at hpos
        simp only [null.sizeOf_spec, array.sizeOf_spec]
        omega
      | array xs =>
        rw [valueAt]
        cases hf : xs[n]? with
        | none =>
          have hwalk : walkPath (.idx n :: p) (.array xs) = .inserts := by rw [walkPath, hf]
          rw [hwalk]
          exact sizeOf_idx_new p hf
        | some v =>
          have hwalk : walkPath (.idx n :: p) (.array xs) = walkPath p v := by rw [walkPath, hf]
          have hget : xs.getD n .null = v := by rw [List.getD_eq_getElem?_getD, hf, Option.getD_some]
          have hset : xs.set n v = xs := by
            rw [← (List.getElem?_eq_some_iff.mp hf).2, List.set_getElem_self]
          rw [hwalk, hget, onPath_idx_old p hf]
          refine (ih v).wrap (fun v' => array (xs.set n v')) (congrArg array hset) fun v' => ?_
          have hsize := sizeOf_set v' hf
          simp only [array.sizeOf_spec]
          omega
      | _ => exact ⟨_, rfl⟩

/-- A chain never makes the tree smaller. -/
theorem Ends.le {w : Walk} {j : Json} {a : Except Exn α} {r : Except Exn α × Json} (h : Ends w j a r) :
    sizeOf j ≤ sizeOf r.2 := by
  cases w with
  | passes =>
    obtain rfl : r = (a, j) := h
    exact le_refl _
  | stops =>
    obtain ⟨e, rfl⟩ := h
    exact le_refl _
  | inserts => exact le_of_lt h

end Json

namespace CfgMng

/-- A command that only adds to the configuration. -/
structure OnlyAdds (s s' : CfgMng) : Prop where
  size : sizeOf s.m_jRuntimeSysCfg ≤ sizeOf s'.m_jRuntimeSysCfg
  map : s'.m_mapRuntimeSysCfg = s.m_mapRuntimeSysCfg
  db : s'.db = s.db

theorem OnlyAdds.refl (s : CfgMng) : OnlyAdds s s := ⟨le_refl _, rfl, rfl⟩

theorem OnlyAdds.trans {s s₁ s' : CfgMng} (h : OnlyAdds s s₁) (h' : OnlyAdds s₁ s') : OnlyAdds s s' :=
  ⟨h.size.trans h'.size, h'.map.trans h.map, h'.db.trans h.db⟩

/-- A command that reads: by the configuration it passes with a value, stops, or inserts. -/
def Follows {α : Type} (w : Json → Walk) (val : Json → α) (x : Cmd α) : Prop :=
  ∀ s, OnlyAdds s (stateOf (x s)) ∧
    match w s.m_jRuntimeSysCfg with
    | .passes => x s = .ok (val s.m_jRuntimeSysCfg) s
    | .stops => ∃ e, x s = .error e s
    | .inserts => sizeOf s.m_jRuntimeSysCfg < sizeOf (stateOf (x s)).m_jRuntimeSysCfg

/-- Configuration and lookup map are as before. -/
def Unchanged (s s' : CfgMng) : Prop :=
  s'.m_jRuntimeSysCfg = s.m_jRuntimeSysCfg ∧ s'.m_mapRuntimeSysCfg = s.m_mapRuntimeSysCfg

variable {α β : Type} {w : Json → Walk} {val : Json → α} {x : Cmd α}

/-- A command that reads leaves the configuration alone exactly when it inserts nothing. -/
theorem Follows.unchanged_iff (h : Follows w val x) (s : CfgMng) :
    Unchanged s (stateOf (x s)) ↔ w s.m_jRuntimeSysCfg ≠ .inserts := by
  obtain ⟨hadds, h⟩ := h s
  constructor
  · rintro ⟨hcfg, -⟩ hw
    rw [hw] at h
    have hlt : sizeOf s.m_jRuntimeSysCfg < sizeOf (stateOf (x s)).m_jRuntimeSysCfg := h
    rw [hcfg] at hlt
    exact lt_irrefl _ hlt
  · intro hne
    refine ⟨?_, hadds.map⟩
    cases hw : w s.m_jRuntimeSysCfg with
    | passes =>
      rw [hw] at h
      rw [h]
      rfl
    | stops =>
      rw [hw] at h
      obtain ⟨e, he⟩ := h
      rw [he]
      rfl
    | inserts => exact absurd hw hne

theorem Follows.bind {w' : α → Json → Walk} {val' : α → Json → β} {f : α → Cmd β} (hx : Follows w val x)
    (hf : ∀ a, Follows (w' a) (val' a) (f a)) :
    Follows (fun j => (w j).andThen (w' (val j) j)) (fun j => val' (val j) j) (x >>= f) := by
  intro s
  obtain ⟨hadds, h⟩ := hx s
  refine ⟨stateOf_bind_rel (R := OnlyAdds) OnlyAdds.trans hadds fun a s₁ _ => (hf a s₁).1, ?_⟩
  show match (w s.m_jRuntimeSysCfg).andThen (w' (val s.m_jRuntimeSysCfg) s.m_jRuntimeSysCfg) with
    | .passes => _
    | .stops => _
    | .inserts => _
  cases hw : w s.m_jRuntimeSysCfg with
  | passes =>
    rw [hw] at h
    have ha : x s = .ok (val s.m_jRuntimeSysCfg) s := h
    rw [bind_of_ok ha]
    exact (hf _ s).2
  | stops =>
    rw [hw] at h
    obtain ⟨e, he⟩ := h
    exact ⟨e, bind_of_error he⟩
  | inserts =>
    rw [hw] at h
    have hlt : sizeOf s.m_jRuntimeSysCfg < sizeOf (stateOf (x s)).m_jRuntimeSysCfg := h
    show sizeOf s.m_jRuntimeSysCfg < sizeOf (stateOf ((x >>= f) s)).m_jRuntimeSysCfg
    cases hr : x s with
    | ok a s₁ =>
      rw [hr] at hlt
      rw [bind_of_ok hr]
      exact lt_of_lt_of_le hlt (hf a s₁).1.size
    | error e s₁ =>
      rw [hr] at hlt
      rw [bind_of_error hr]
      exact hlt

theorem follows_pure (a : α) : Follows (fun _ => .passes) (fun _ => a) (pure a : Cmd α) :=
  fun s => ⟨OnlyAdds.refl s, rfl⟩

theorem follows_read (p : List Json.Access) :
    Follows (Json.walkPath p) (Json.valueAt p) (onCfg (Json.read p)) := by
  intro s
  have hends := Json.ends_onPath (f := fun v => (.ok v, v)) (fun _ => rfl) p s.m_jRuntimeSysCfg
  refine ⟨?_, ?_⟩
  · rw [stateOf_onCfg]
    exact ⟨hends.le, rfl, rfl⟩
  · cases hw : Json.walkPath p s.m_jRuntimeSysCfg with
    | passes =>
      rw [hw] at hends
      exact onCfg_of_ok hends
    | stops =>
      rw [hw] at hends
      obtain ⟨e, he⟩ := hends
      exact ⟨e, onCfg_of_error he⟩
    | inserts =>
      rw [hw] at hends
      show sizeOf s.m_jRuntimeSysCfg < sizeOf (stateOf (onCfg (Json.read p) s)).m_jRuntimeSysCfg
      rw [stateOf_onCfg]
      exact hends

/-- Whether a value is a text. -/
def isText : Json → Walk
  | .string _ => .passes
  | _ => .stops

def text : Json → String
  | .string s => s
  | _ => ""

theorem follows_readStr (p : List Json.Access) :
    Follows (fun j => (Json.walkPath p j).andThen (isText (Json.valueAt p j)))
      (fun j => text (Json.valueAt p j)) (onCfg (Json.readStr p)) := by
  intro s
  have hends := Json.ends_onPath (f := fun v => (v.toStr, v)) (fun _ => rfl) p s.m_jRuntimeSysCfg
  refine ⟨?_, ?_⟩
  · rw [stateOf_onCfg]
    exact ⟨hends.le, rfl, rfl⟩
  · show match (Json.walkPath p s.m_jRuntimeSysCfg).andThen (isText (Json.valueAt p s.m_jRuntimeSysCfg)) with
      | .passes => _
      | .stops => _
      | .inserts => _
    cases hw : Json.walkPath p s.m_jRuntimeSysCfg with
    | passes =>
      rw [hw] at hends
      cases hv : Json.valueAt p s.m_jRuntimeSysCfg with
      | string t =>
        rw [hv] at hends
        show onCfg (Json.readStr p) s = .ok (text (Json.valueAt p s.m_jRuntimeSysCfg)) s
        rw [hv]
        exact onCfg_of_ok hends
      | _ =>
        rw [hv] at hends
        exact ⟨_, onCfg_of_error hends⟩
    | stops =>
      rw [hw] at hends
      obtain ⟨e, he⟩ := hends
      exact ⟨e, onCfg_of_error he⟩
    | inserts =>
      rw [hw] at hends
      show sizeOf s.m_jRuntimeSysCfg < sizeOf (stateOf (onCfg (Json.readStr p) s)).m_jRuntimeSysCfg
      rw [stateOf_onCfg]
      exact hends

/-- Whether a member of a value can be set. -/
def settable : Json → Walk
  | .null => .passes
  | .object _ => .passes
  | _ => .stops

theorem follows_set (v : Json) (k : String) (u : Json) :
    Follows (fun _ => settable v) (fun _ => v.put k u) (fromExcept (v.set k u) : Cmd Json) := by
  intro s
  refine ⟨?_, ?_⟩
  · cases v <;> exact OnlyAdds.refl s
  · cases v with
    | null => rfl
    | object m => rfl
    | _ => exact ⟨_, rfl⟩

def detectAlg : List Json.Access := [.key strAlgNode, .key strAlgDetectNode, .idx 0]
def actionAlg : List Json.Access := [.key strAlgNode, .key strAlgActionNode, .idx 0]
def detectLst : List Json.Access := [.key strTaskNode, .key strTaskDetectNode, .idx 0, .key strAttriLst]
def actionLst : List Json.Access := [.key strTaskNode, .key strTaskActionNode, .idx 0, .key strAttriLst]

/-- What command 0x11 gets to, in order. -/
def cfgWalk (j : Json) : Walk :=
  (Json.walkPath [.key strTransferNode] j).andThen <|
  (Json.walkPath [.key strDbNode] j).andThen <|
  (Json.walkPath detectAlg j).andThen <|
  (Json.walkPath actionAlg j).andThen <|
  ((Json.walkPath detectLst j).andThen (isText (Json.valueAt detectLst j))).andThen <|
  (settable (Json.valueAt detectAlg j)).andThen <|
  ((Json.walkPath actionLst j).andThen (isText (Json.valueAt actionLst j))).andThen <|
  (settable (Json.valueAt actionAlg j)).andThen .passes

theorem follows_queryCfg : ∃ val, Follows cfgWalk val queryCfg :=
  ⟨_, (follows_read [.key strTransferNode]).bind fun _ => (follows_read [.key strDbNode]).bind fun _ =>
    (follows_read detectAlg).bind fun jDetectAlgCfg => (follows_read actionAlg).bind fun jActionAlgCfg =>
    (follows_readStr detectLst).bind fun strDetectLst =>
    (follows_set jDetectAlgCfg strAttriTaskLst (.string strDetectLst)).bind fun _ =>
    (follows_readStr actionLst).bind fun strActionLst =>
    (follows_set jActionAlgCfg strAttriTaskLst (.string strActionLst)).bind fun _ => follows_pure _⟩

/-- What a query gets to. -/
def queryWalk (u32Cmd : UInt8) (j : Json) : Walk :=
  if u32Cmd = 0x11 then cfgWalk j else Json.walkPath [.key strAppNode] j

theorem stateOf_bind_of_keeps {f : α → Cmd β} (hf : ∀ a s, stateOf (f a s) = s) (x : Cmd α) (s : CfgMng) :
    stateOf ((x >>= f) s) = stateOf (x s) := by
  cases hr : x s with
  | ok a s₁ =>
    rw [bind_of_ok hr]
    exact hf a s₁
  | error e s₁ =>
    rw [bind_of_error hr]
    rfl

theorem stateOf_queryTasks (s : CfgMng) : stateOf (queryTasks s) = stateOf (onCfg (Json.read [.key strAppNode]) s) := by
  refine stateOf_bind_of_keeps (fun jApp s => ?_) _ s
  show stateOf ((fromExcept ((jApp.elems.flatMap Json.elems).mapM (taskInfo s.m_mapRuntimeSysCfg)) >>= _) s) = s
  rw [stateOf_bind_of_keeps fun _ _ => rfl]
  cases (jApp.elems.flatMap Json.elems).mapM (taskInfo s.m_mapRuntimeSysCfg) <;> rfl

/-- **Queries.** A query leaves configuration and lookup map as they are, whether it replies
or throws, exactly when nothing that it gets to is missing. -/
theorem query_unchanged_iff (exFactory : CfgObjMap) {c : Command} (hc : c.u32Cmd = 0x11 ∨ c.u32Cmd = 0x12)
    (s : CfgMng) :
    Unchanged s (stateOf (RecTcpProtocolMsg exFactory c s)) ↔ queryWalk c.u32Cmd s.m_jRuntimeSysCfg ≠ .inserts := by
  rcases hc with hc | hc
  · obtain ⟨val, hfollows⟩ := follows_queryCfg
    rw [RecTcpProtocolMsg, if_pos hc, stateOf_map, queryWalk, if_pos hc]
    exact hfollows.unchanged_iff s
  · have hne : c.u32Cmd ≠ 0x11 := by
      rw [hc]
      decide
    rw [RecTcpProtocolMsg, if_neg hne, if_pos hc, stateOf_map, stateOf_queryTasks, queryWalk, if_neg hne]
    exact (follows_read [.key strAppNode]).unchanged_iff s

theorem sorted_of_error {e : Exn} (j : Json) (h : (.error e : Except Exn Json) = .ok j) : j.Sorted := by
  cases h

/-- A query as it comes, with an empty body. -/
def queryCommand (u32Cmd : UInt8) : Command where
  u32Cmd := u32Cmd
  body := .error .parse_error
  sorted := sorted_of_error
  appUpdate := none
  transUpdate := none

/-- A configuration with all that the queries get to. -/
def complete : CfgMng where
  m_jRuntimeSysCfg := .object [
    (strAlgNode, .object [(strAlgActionNode, .array [.object []]), (strAlgDetectNode, .array [.object []])]),
    (strAppNode, .null), (strDbNode, sqliteNode),
    (strTaskNode, .object [(strTaskActionNode, .array [.object [(strAttriLst, .string "")]]),
      (strTaskDetectNode, .array [.object [(strAttriLst, .string "helmet")]])]),
    (strTransferNode, tcpServerNode)]
  m_mapRuntimeSysCfg := []
  db := ⟨[], false⟩

theorem query_unchanged_complete :
    Unchanged complete (stateOf (RecTcpProtocolMsg exFactorySqlite (queryCommand 0x11) complete)) :=
  (query_unchanged_iff exFactorySqlite (.inl rfl) complete).mpr (by decide +kernel)

/-- A configuration loaded from tables of which only that of the databases has a row: the
query inserts a node Alg, and throws. -/
theorem not_query_unchanged_loaded : ∃ s,
    LoadRuntimeSysCfgInDb exFactorySqlite ⟨.null, [], databaseOnly.db⟩ = .ok ⟨⟩ s ∧
      s.m_jRuntimeSysCfg.find? strAlgNode = none ∧
      ((stateOf (RecTcpProtocolMsg exFactorySqlite (queryCommand 0x11) s)).m_jRuntimeSysCfg.find?
        strAlgNode).isSome = true ∧
      ¬ Unchanged s (stateOf (RecTcpProtocolMsg exFactorySqlite (queryCommand 0x11) s)) := by
  have hload : LoadRuntimeSysCfgInDb exFactorySqlite ⟨.null, [], databaseOnly.db⟩ =
      .ok ⟨⟩ (stateOf (LoadRuntimeSysCfgInDb exFactorySqlite ⟨.null, [], databaseOnly.db⟩)) := rfl
  refine ⟨_, hload, rfl, by decide +kernel, fun h => ?_⟩
  have hsome := congrArg (fun j => (j.find? strAlgNode).isSome) h.1
  revert hsome
  decide +kernel

end CfgMng

end Perception.Cfg
