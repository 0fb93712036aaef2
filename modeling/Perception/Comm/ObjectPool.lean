import Mathlib.Data.List.Dedup
import Mathlib.Data.List.Range
import Perception.Lib.History

/-!
# The object pool

An object goes back to the pool when its last handle is dropped, by the deleter that `Init` has
given it. The deleter puts the object in a new handle that has no such deleter, so that an
object which is dropped for the second time is deleted.
-/
namespace Perception.Comm.ObjectPool

set_option autoImplicit false

open Perception.Lib.History

/-- A `shared_ptr`: its object, and the name that the deleter of `Init` has captured; none for
the default deleter. -/
structure SharedPtr where
  ptr : Nat
  deleter : Option String
deriving DecidableEq

/-- The entries of `m_object_map` in the order of their insertion, and what `Get` has returned,
without what was dropped since. Objects are numbered in the order of their construction. -/
structure State where
  allocated : Nat
  m_object_map : List (String × SharedPtr)
  handles : List (Option SharedPtr)

def State.empty : State := ⟨0, [], []⟩

def MaxObjectNum : Nat := 100

/-- The body of the loop of `Init`. -/
def construct (constructName : String) (s : State) : State :=
  { s with
    allocated := s.allocated + 1
    m_object_map := s.m_object_map ++ [(constructName, ⟨s.allocated, some constructName⟩)] }

def Init (constructName : String) (num : Nat) (s : State) : Except String State :=
  if num = 0 ∨ num > MaxObjectNum then .error "object num out of range."
  else .ok ((List.range num).foldl (fun s _ => construct constructName s) s)

def hasName (constructName : String) (it : String × SharedPtr) : Bool := it.1 == constructName

def Get (constructName : String) (m_object_map : List (String × SharedPtr)) :
    Option SharedPtr × List (String × SharedPtr) :=
  match m_object_map.find? (hasName constructName) with
  | some it => (some it.2, m_object_map.eraseP (hasName constructName))
  | none => (none, m_object_map)

/-- The last copy of a handle is dropped. -/
def destroy (p : SharedPtr) (m_object_map : List (String × SharedPtr)) : List (String × SharedPtr) :=
  match p.deleter with
  | some constructName => m_object_map ++ [(constructName, ⟨p.ptr, none⟩)]
  | none => m_object_map

/-- A call of `Get`, or the handle of the `k`-th successful call is dropped. -/
inductive Op where
  | get
  | release (k : Nat)
deriving DecidableEq

def step (constructName : String) (s : State) : Op → Option State
  | .get =>
    match Get constructName s.m_object_map with
    | (some p, m_object_map) => some { s with m_object_map, handles := s.handles ++ [some p] }
    | (none, m_object_map) => some { s with m_object_map }
  | .release k =>
    match s.handles[k]? with
    | some (some p) =>
      some { s with m_object_map := destroy p s.m_object_map, handles := s.handles.set k none }
    | _ => none

/-- The objects in the pool. -/
def pooled (s : State) : List Nat := s.m_object_map.map fun it => it.2.ptr

/-- The objects of the handles that are not dropped. -/
def outstanding (s : State) : List Nat := (s.handles.filterMap id).map SharedPtr.ptr

def owned (s : State) : List Nat := pooled s ++ outstanding s

/-- No object is lost: what the pool has and what is outstanding are `n` objects. -/
structure Conserved (constructName : String) (n : Nat) (s : State) : Prop where
  total : s.m_object_map.length + (outstanding s).dedup.length = n
  once : (outstanding s).Nodup
  full : (Get constructName s.m_object_map).1 = none → (outstanding s).dedup.length = n

/-- The pool gives out its objects in turn: the first `n` calls those of `Init`, and later calls
objects that were dropped, which have lost their deleter. -/
structure InTurn (constructName : String) (n : Nat) (s : State) : Prop where
  queue : ∃ rest : List (String × SharedPtr),
    s.m_object_map = (List.range' s.handles.length (n - s.handles.length)).map
      (fun i => (constructName, ⟨i, some constructName⟩)) ++ rest ∧
        ∀ it ∈ rest, it.1 = constructName ∧ it.2.deleter = none
  deleter : ∀ (k : Nat) (p : SharedPtr), s.handles[k]? = some (some p) →
    p.deleter = if k < n then some constructName else none

variable {constructName : String} {n : Nat} {s s' : State} {e : Op}

theorem InTurn.key (h : InTurn constructName n s) : ∀ it ∈ s.m_object_map, it.1 = constructName := by
  obtain ⟨rest, hmap, hrest⟩ := h.queue
  rw [hmap]
  intro it hit
  rcases List.mem_append.mp hit with hfirst | hit
  · obtain ⟨i, -, rfl⟩ := List.mem_map.mp hfirst
    rfl
  · exact (hrest it hit).1

theorem Get_cons (p : SharedPtr) (rest : List (String × SharedPtr)) :
    Get constructName ((constructName, p) :: rest) = (some p, rest) := by
  have hkey : hasName constructName (constructName, p) = true := beq_self_eq_true constructName
  rw [Get, List.find?_cons_of_pos hkey, List.eraseP_cons_of_pos hkey]

/-- What a step does. -/
theorem step_cases (hkey : ∀ it ∈ s.m_object_map, it.1 = constructName) (h : step constructName s e = some s') :
    (e = .get ∧ s.m_object_map = [] ∧ s' = s) ∨
    (∃ p rest, e = .get ∧ s.m_object_map = (constructName, p) :: rest ∧
      s' = { s with m_object_map := rest, handles := s.handles ++ [some p] }) ∨
    ∃ k p, e = .release k ∧ s.handles[k]? = some (some p) ∧
      s' = { s with m_object_map := destroy p s.m_object_map, handles := s.handles.set k none } := by
  cases e with
  | get =>
    cases hmap : s.m_object_map with
    | nil =>
      refine .inl ⟨rfl, rfl, ?_⟩
      rw [step, hmap] at h
      have hsame : some { s with m_object_map := [] } = some s' := h
      rw [← Option.some.inj hsame, ← hmap]
    | cons it rest =>
      obtain ⟨name, p⟩ := it
      obtain rfl : name = constructName := hkey _ (hmap ▸ List.mem_cons_self)
      refine .inr (.inl ⟨p, rest, rfl, rfl, ?_⟩)
      rw [step, hmap, Get_cons] at h
      exact (Option.some.inj h).symm
  | release k =>
    rw [step] at h
    split at h
    · next p hk => exact .inr (.inr ⟨k, p, rfl, hk, (Option.some.inj h).symm⟩)
    · cases h

theorem inTurn_step (hs : InTurn constructName n s) (h : step constructName s e = some s') : InTurn constructName n s' := by
  obtain ⟨rest, hmap, hrest⟩ := hs.queue
  obtain ⟨-, -, rfl⟩ | ⟨p, tail, -, hcons, rfl⟩ | ⟨k, p, -, hk, rfl⟩ := step_cases hs.key h
  · exact hs
  · have hlen : (s.handles ++ [some p]).length = s.handles.length + 1 := by
      rw [List.length_append, List.length_singleton]
    -- The handle is of `Init` as long as there is one.
    have hfirst : (∃ rest, tail = (List.range' (s.handles.length + 1) (n - (s.handles.length + 1))).map
        (fun i => (constructName, (⟨i, some constructName⟩ : SharedPtr))) ++ rest ∧
          ∀ it ∈ rest, it.1 = constructName ∧ it.2.deleter = none) ∧
        p.deleter = if s.handles.length < n then some constructName else none := by
      rw [hcons] at hmap
      by_cases hlt : s.handles.length < n
      · obtain ⟨m, hm⟩ : ∃ m, n - s.handles.length = m + 1 := ⟨n - s.handles.length - 1, by omega⟩
        have hm' : n - (s.handles.length + 1) = m := by omega
        rw [hm, List.range'_succ, List.map_cons, List.cons_append] at hmap
        obtain ⟨hp, htail⟩ := List.cons.inj hmap
        rw [if_pos hlt, hm', ← (Prod.mk.inj hp).2.symm]
        exact ⟨⟨rest, htail, hrest⟩, rfl⟩
      · have hnone : n - s.handles.length = 0 := by omega
        have hnone' : n - (s.handles.length + 1) = 0 := by omega
        rw [hnone, List.range'_zero, List.map_nil, List.nil_append] at hmap
        rw [if_neg hlt, hnone']
        refine ⟨⟨tail, rfl, fun it hit => hrest it ?_⟩, (hrest (constructName, p) ?_).2⟩
        · rw [← hmap]
          exact List.mem_cons_of_mem _ hit
        · rw [← hmap]
          exact List.mem_cons_self
    refine ⟨?_, fun k q hq => ?_⟩
    · rw [hlen]
      exact hfirst.1
    · rcases Nat.lt_trichotomy k s.handles.length with hlt | rfl | hgt
      · rw [List.getElem?_append_left hlt] at hq
        exact hs.deleter k q hq
      · rw [List.getElem?_concat_length] at hq
        obtain rfl := Option.some.inj (Option.some.inj hq)
        exact hfirst.2
      · rw [List.getElem?_eq_none (by rw [hlen]; omega)] at hq
        cases hq
  · refine ⟨?_, fun j q hq => ?_⟩
    · rw [List.length_set]
      unfold destroy
      split
      · next name hname =>
        have hdeleter := hs.deleter k p hk
        rw [hname] at hdeleter
        have hkey : name = constructName := by
          split at hdeleter
          · exact Option.some.inj hdeleter
          · cases hdeleter
        refine ⟨rest ++ [(name, ⟨p.ptr, none⟩)], ?_, fun it hit => ?_⟩
        · rw [hmap, List.append_assoc]
        · rcases List.mem_append.mp hit with hit | hit
          · exact hrest it hit
          · rw [List.mem_singleton.mp hit]
            exact ⟨hkey, rfl⟩
      · exact ⟨rest, hmap, hrest⟩
    · rcases eq_or_ne k j with rfl | hne
      · rw [List.getElem?_set_self (List.getElem?_eq_some_iff.mp hk).1] at hq
        cases hq
      · rw [List.getElem?_set_ne hne] at hq
        exact hs.deleter j q hq

theorem perm_filterMap_set {α : Type} {xs : List (Option α)} {k : Nat} {x : α} (h : xs[k]? = some (some x)) :
    (xs.filterMap id).Perm (x :: (xs.set k none).filterMap id) := by
  induction xs generalizing k with
  | nil => cases h
  | cons y xs ih =>
    cases k with
    | zero =>
      obtain rfl : y = some x := Option.some.inj h
      exact .refl _
    | succ k =>
      have htail := ih (k := k) h
      cases y with
      | none => exact htail
      | some y => exact (htail.cons y).trans (.swap x y _)

theorem outstanding_release {k : Nat} {p : SharedPtr} (hk : s.handles[k]? = some (some p))
    (m_object_map : List (String × SharedPtr)) :
    (outstanding s).Perm (p.ptr :: outstanding { s with m_object_map, handles := s.handles.set k none }) :=
  (perm_filterMap_set hk).map SharedPtr.ptr

/-- A handle that has its deleter gives the object back. -/
theorem owned_step (hs : InTurn constructName n s) (hC : ∀ k, e = .release k → k < n)
    (h : step constructName s e = some s') : (owned s').Perm (owned s) := by
  obtain ⟨-, -, rfl⟩ | ⟨p, tail, -, hcons, rfl⟩ | ⟨k, p, rfl, hk, rfl⟩ := step_cases hs.key h
  · exact .refl _
  · have hout : outstanding { s with m_object_map := tail, handles := s.handles ++ [some p] } = outstanding s ++ [p.ptr] := by
      rw [outstanding, List.filterMap_append, List.map_append]
      rfl
    rw [owned, owned, hout, pooled, pooled, hcons, ← List.append_assoc]
    exact List.perm_append_singleton _ _
  · have hdeleter := hs.deleter k p hk
    rw [if_pos (hC k rfl)] at hdeleter
    have hback : destroy p s.m_object_map = s.m_object_map ++ [(constructName, ⟨p.ptr, none⟩)] := by
      rw [destroy, hdeleter]
    rw [owned, owned, pooled, hback, List.map_append, List.append_assoc]
    exact (outstanding_release hk _).symm.append_left _

theorem length_owned (s : State) : (owned s).length = s.m_object_map.length + (outstanding s).length := by
  rw [owned, List.length_append, pooled, List.length_map]

/-- The objects of `Init`, each once. -/
structure Inv (constructName : String) (n : Nat) (s : State) : Prop where
  inTurn : InTurn constructName n s
  owned : (owned s).Perm (List.range n)

theorem inv_step (hs : Inv constructName n s) (hC : ∀ k, e = .release k → k < n) (h : step constructName s e = some s') :
    Inv constructName n s' :=
  ⟨inTurn_step hs.inTurn h, (owned_step hs.inTurn hC h).trans hs.owned⟩

theorem Inv.length_eq (hs : Inv constructName n s) : s.m_object_map.length + (outstanding s).length = n := by
  rw [← length_owned, hs.owned.length_eq, List.length_range]

theorem Inv.conserved (hs : Inv constructName n s) : Conserved constructName n s := by
  have hnodup : (ObjectPool.owned s).Nodup := hs.owned.nodup_iff.mpr List.nodup_range
  have honce : (outstanding s).Nodup := (List.nodup_append.mp hnodup).2.1
  have htotal := hs.length_eq
  refine ⟨?_, honce, fun hnull => ?_⟩
  · rw [honce.dedup, htotal]
  · cases hmap : s.m_object_map with
    | nil =>
      rw [hmap, List.length_nil] at htotal
      rw [honce.dedup]
      omega
    | cons it rest =>
      obtain ⟨name, p⟩ := it
      obtain rfl : name = constructName := hs.inTurn.key _ (hmap ▸ List.mem_cons_self)
      rw [hmap, Get_cons] at hnull
      cases hnull

/-- An object whose handle has lost its deleter is deleted. -/
theorem release_of_conserved {k : Nat} (hs : Inv constructName n s) (h : step constructName s (.release k) = some s')
    (hconserved : Conserved constructName n s') : k < n := by
  obtain ⟨hget, -⟩ | ⟨p, rest, hget, -⟩ | ⟨j, p, hj, hk, rfl⟩ := step_cases hs.inTurn.key h
  · cases hget
  · cases hget
  · obtain rfl : k = j := Op.release.inj hj
    by_contra hge
    have hdeleter := hs.inTurn.deleter k p hk
    rw [if_neg hge] at hdeleter
    have hlost : destroy p s.m_object_map = s.m_object_map := by rw [destroy, hdeleter]
    have hbefore := hs.length_eq
    have hout := (outstanding_release hk s.m_object_map).length_eq
    have hafter : s.m_object_map.length + (outstanding { s with handles := s.handles.set k none }).dedup.length = n := by
      have htotal := hconserved.total
      rw [hlost] at htotal
      exact htotal
    have hle := (List.dedup_sublist (outstanding { s with handles := s.handles.set k none })).length_le
    rw [List.length_cons] at hout
    omega

/-- What the first `num` turns of the loop of `Init` have constructed. -/
theorem foldl_construct (constructName : String) (num : Nat) :
    (List.range num).foldl (fun s _ => construct constructName s) State.empty =
      ⟨num, (List.range' 0 num).map fun i => (constructName, ⟨i, some constructName⟩), []⟩ := by
  induction num with
  | zero => rfl
  | succ num ih =>
    have hlast : List.range' 0 (num + 1) = List.range' 0 num ++ [num] := by
      rw [← List.range_eq_range', ← List.range_eq_range', List.range_succ]
    rw [List.range_succ, List.foldl_append, ih, hlast, List.map_append]
    rfl

theorem inv_Init (h : Init constructName n State.empty = .ok s) : Inv constructName n s := by
  unfold Init at h
  split at h
  · cases h
  · rw [foldl_construct] at h
    obtain rfl := Except.ok.inj h
    refine ⟨⟨⟨[], ?_, nofun⟩, fun k p hk => by cases hk⟩, ?_⟩
    · rw [List.append_nil]
      rfl
    · have hpooled : ((List.range' 0 n).map fun i => (constructName, (⟨i, some constructName⟩ : SharedPtr))).map
          (fun it => it.2.ptr) = List.range n := by
        rw [List.map_map, List.range_eq_range']
        exact List.map_id _
      rw [owned, pooled, hpooled]
      exact .of_eq (List.append_nil _)

/-- **Conservation.** In every state of a run the pool and the outstanding handles have the `n`
objects of `Init`, each once, exactly when none but the first `n` handles are dropped. -/
theorem always_conserved_iff (constructName : String) (n : Nat) (s s' : State) (es : List Op)
    (hInit : Init constructName n State.empty = .ok s) (hrun : run (step constructName) s es = some s') :
    Always (step constructName) (Conserved constructName n) s es ↔ ∀ k, Op.release k ∈ es → k < n := by
  have hinv := inv_Init hInit
  have hsteps : EachStep (step constructName) (fun _ e => ∀ k, e = .release k → k < n) s es ↔
      ∀ k, Op.release k ∈ es → k < n := by
    rw [eachStep_iff_forall_mem hrun]
    exact ⟨fun h k hk => h _ hk k rfl, fun h e he k hk => h k (hk ▸ he)⟩
  rw [← hsteps]
  constructor
  · intro halways
    refine eachStep_of_always (D := fun _ _ => True) (fun s e s' => inv_step) ?_ hinv hrun (fun _ _ _ _ _ _ => trivial) halways
    rintro s e s' hs - hstep hconserved k rfl
    exact release_of_conserved hs hstep hconserved
  · intro heach
    exact (always_of_eachStep (fun s e s' => inv_step) hinv heach).mono fun s => Inv.conserved

theorem always_conserved_once : ∃ s s' : State, Init "T" 1 State.empty = .ok s ∧
    run (step "T") s [.get, .release 0, .get] = some s' ∧
      Always (step "T") (Conserved "T" 1) s [.get, .release 0, .get] := by
  refine ⟨_, _, rfl, rfl, (always_conserved_iff "T" 1 _ _ _ rfl rfl).mpr fun k hk => ?_⟩
  have hzero : Op.release k = .release 0 := by simpa using hk
  obtain rfl : k = 0 := Op.release.inj hzero
  decide

/-- The only object of a pool is dropped twice, and the pool is empty with no handle left. -/
theorem not_always_conserved_twice : ¬∀ (constructName : String) (n : Nat) (s s' : State) (es : List Op),
    Init constructName n State.empty = .ok s → run (step constructName) s es = some s' →
      Always (step constructName) (Conserved constructName n) s es := by
  intro h
  have halways := h "T" 1 _ _ [.get, .release 0, .get, .release 1] rfl rfl
  have hlast := halways [.get, .release 0, .get, .release 1] [] _ rfl rfl
  exact absurd hlast.total (by decide)

end Perception.Comm.ObjectPool
