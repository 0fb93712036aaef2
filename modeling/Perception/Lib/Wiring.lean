import Mathlib.Algebra.BigOperators.Group.Finset.Basic
import Mathlib.Algebra.BigOperators.Group.Finset.Pi
import Mathlib.Data.List.Pairwise

/-!
# Wires

Records whose entries are brought by wires, and the pairing of a record of covectors with one of
velocities. What is paired at the ends of wires is a sum over the wires.
-/
namespace Perception.Lib.Wiring

set_option autoImplicit false

variable {C K T β : Type} [DecidableEq K]

/-- What the wire to a key brings. -/
def brought (sel : C → Prop) [DecidablePred sel] (key : C → K) (val : C → β) (l : List C) (other : K → β) : K → β :=
  fun k =>
    match l.find? fun c => sel c ∧ key c = k with
    | some c => val c
    | none => other k

variable {sel : C → Prop} [DecidablePred sel] {key : C → K} {val : C → β} {l : List C} {other : K → β}

theorem brought_of_mem (hkey : l.Pairwise fun c c' => sel c → sel c' → key c ≠ key c') {c : C} (hc : c ∈ l) (hsel : sel c) :
    brought sel key val l other (key c) = val c := by
  induction l with
  | nil => cases hc
  | cons c' rest ih =>
    obtain ⟨hfirst, hrest⟩ := List.pairwise_cons.mp hkey
    rcases List.mem_cons.mp hc with rfl | hc
    · simp [brought, hsel]
    · by_cases hc' : sel c'
      · have hne : key c' ≠ key c := hfirst c hc hc' hsel
        simpa [brought, hne] using ih hrest hc
      · simpa [brought, hc'] using ih hrest hc

theorem brought_of_forall {k : K} (h : ∀ c ∈ l, sel c → key c ≠ k) : brought sel key val l other k = other k := by
  have hnone : l.find? (fun c => sel c ∧ key c = k) = none := by
    rw [List.find?_eq_none]
    intro c hc
    simpa using h c hc
  rw [brought, hnone]

theorem brought_congr {sel' : C → Prop} [DecidablePred sel'] {val' : C → β} (hsel : ∀ c ∈ l, sel c ↔ sel' c)
    (hval : ∀ c ∈ l, sel c → val c = val' c) : brought sel key val l other = brought sel' key val' l other := by
  induction l with
  | nil => rfl
  | cons c rest ih =>
    have ih := fun k => congrFun (ih (fun c hc => hsel c (List.mem_cons_of_mem _ hc))
      fun c hc => hval c (List.mem_cons_of_mem _ hc)) k
    funext k
    by_cases hc : sel c ∧ key c = k
    · simp [brought, ← hsel c List.mem_cons_self, hc, hval c List.mem_cons_self hc.1]
    · simpa [brought, ← hsel c List.mem_cons_self, hc] using ih k

/-- With one wire to a key the order of the wires does not matter. -/
theorem brought_perm {l' : List C} (hkey : l.Pairwise fun c c' => sel c → sel c' → key c ≠ key c') (hperm : l.Perm l') :
    brought sel key val l' other = brought sel key val l other := by
  have hkey' : l'.Pairwise fun c c' => sel c → sel c' → key c ≠ key c' :=
    hperm.pairwise hkey fun h hc hc' heq => h hc' hc heq.symm
  funext k
  by_cases hk : ∃ c ∈ l, sel c ∧ key c = k
  · obtain ⟨c, hc, hsel, rfl⟩ := hk
    rw [brought_of_mem hkey hc hsel, brought_of_mem hkey' (hperm.subset hc) hsel]
  · have hnone : ∀ c ∈ l, sel c → key c ≠ k := fun c hc hsel heq => hk ⟨c, hc, hsel, heq⟩
    rw [brought_of_forall hnone, brought_of_forall fun c hc => hnone c (hperm.mem_iff.mpr hc)]

/-- The first wire, then the others. -/
theorem brought_cons {c : C} :
    brought sel key val (c :: l) other =
      if sel c then Function.update (brought sel key val l other) (key c) (val c) else brought sel key val l other := by
  funext k
  by_cases hc : sel c
  · rw [if_pos hc]
    by_cases hk : k = key c
    · subst hk
      simp [brought, hc]
    · simp [brought, hk, Ne.symm hk]
  · simp [brought, hc]

theorem brought_update {k : K} {v : β} (h : ∀ c ∈ l, sel c → key c ≠ k) :
    brought sel key val l (Function.update other k v) = Function.update (brought sel key val l other) k v := by
  funext k'
  by_cases hk : k' = k
  · rw [hk, brought_of_forall h, Function.update_self, Function.update_self]
  · rw [Function.update_of_ne hk]
    unfold brought
    rw [Function.update_of_ne hk]

variable {V D R : Type} [AddCommGroup R] (pair : V → D → R)

/-- An entry that is missing pairs to nothing. -/
def pairAt : Option V → D → R
  | none, _ => 0
  | some g, d => pair g d

variable [Fintype K]

def pairing (g : K → Option V) (d : K → D) : R := ∑ k, pairAt pair (g k) (d k)

variable {pair}

theorem pairing_update_right (g : K → Option V) (d : K → D) (k : K) (v : D) (hzero : pairAt pair (g k) (d k) = 0) :
    pairing pair g (Function.update d k v) = pairAt pair (g k) v + pairing pair g d := by
  unfold pairing
  rw [← Finset.add_sum_erase _ _ (Finset.mem_univ k), ← Finset.add_sum_erase (a := k) _ _ (Finset.mem_univ k), hzero,
    zero_add, Function.update_self]
  congr 1
  apply Finset.sum_congr rfl
  intro k' hk'
  rw [Function.update_of_ne (Finset.ne_of_mem_erase hk')]

theorem pairing_update_left (g : K → Option V) (d : K → D) (k : K) (v : Option V) :
    pairing pair (Function.update g k v) d + pairAt pair (g k) (d k) = pairAt pair v (d k) + pairing pair g d := by
  unfold pairing
  rw [← Finset.add_sum_erase _ _ (Finset.mem_univ k), ← Finset.add_sum_erase (a := k) _ _ (Finset.mem_univ k),
    Function.update_self]
  have hrest : ∑ k' ∈ Finset.univ.erase k, pairAt pair (Function.update g k v k') (d k') =
      ∑ k' ∈ Finset.univ.erase k, pairAt pair (g k') (d k') := by
    apply Finset.sum_congr rfl
    intro k' hk'
    rw [Function.update_of_ne (Finset.ne_of_mem_erase hk')]
  rw [hrest, add_right_comm, add_assoc]

/-- The sum over the wires that are selected. -/
def wireSum (sel : C → Prop) [DecidablePred sel] (f : C → R) (l : List C) : R := (l.map fun c => if sel c then f c else 0).sum

theorem wireSum_cons {f : C → R} {c : C} : wireSum sel f (c :: l) = (if sel c then f c else 0) + wireSum sel f l := by
  rw [wireSum, List.map_cons, List.sum_cons]
  rfl

omit [Fintype K] [DecidableEq K] in
theorem wireSum_congr {f f' : C → R} (h : ∀ c ∈ l, sel c → f c = f' c) : wireSum sel f l = wireSum sel f' l := by
  unfold wireSum
  congr 1
  apply List.map_congr_left
  intro c hc
  by_cases hsel : sel c
  · rw [if_pos hsel, if_pos hsel, h c hc hsel]
  · rw [if_neg hsel, if_neg hsel]

/-- Paired with what wires bring. -/
theorem pairing_brought [Zero D] (hpair : ∀ g, pair g 0 = 0) {dval : C → D} {dother : K → D} (g : K → Option V)
    (hkey : l.Pairwise fun c c' => sel c → sel c' → key c ≠ key c') (hother : ∀ c ∈ l, sel c → dother (key c) = 0) :
    pairing pair g (brought sel key dval l dother) =
      wireSum sel (fun c => pairAt pair (g (key c)) (dval c)) l + pairing pair g dother := by
  induction l with
  | nil =>
    rw [wireSum, List.map_nil, List.sum_nil, zero_add]
    rfl
  | cons c rest ih =>
    obtain ⟨hfirst, hrest⟩ := List.pairwise_cons.mp hkey
    rw [brought_cons, wireSum_cons]
    by_cases hc : sel c
    · rw [if_pos hc, if_pos hc, pairing_update_right, ih hrest fun c hc => hother c (List.mem_cons_of_mem _ hc), add_assoc]
      rw [brought_of_forall fun c' hc' hsel => (hfirst c' hc' hc hsel).symm, hother c List.mem_cons_self hc]
      cases g (key c) with
      | none => rfl
      | some v => exact hpair v
    · rw [if_neg hc, if_neg hc, zero_add, ih hrest fun c hc => hother c (List.mem_cons_of_mem _ hc)]

theorem sum_map_ite [DecidableEq T] {t : T} {v : R} {places : List T} (hnodup : places.Nodup) (ht : t ∈ places) :
    (places.map fun t' => if t = t' then v else 0).sum = v := by
  induction places with
  | nil => cases ht
  | cons t' rest ih =>
    obtain ⟨hnot, hrest⟩ := List.nodup_cons.mp hnodup
    rw [List.map_cons, List.sum_cons]
    rcases List.mem_cons.mp ht with rfl | ht
    · have hzero : (rest.map fun t' => if t = t' then v else 0).sum = 0 := by
        apply List.sum_eq_zero
        intro x hx
        obtain ⟨t', ht', rfl⟩ := List.mem_map.mp hx
        exact if_neg (ne_of_mem_of_not_mem ht' hnot).symm
      rw [if_pos rfl, hzero, add_zero]
    · rw [if_neg (ne_of_mem_of_not_mem ht hnot), zero_add, ih hrest ht]

/-- Every wire is selected at one of the places. -/
theorem sum_wireSum [DecidableEq T] {place : C → T} {f : C → R} {places : List T} (hnodup : places.Nodup)
    (hmem : ∀ c ∈ l, place c ∈ places) :
    (places.map fun t => wireSum (fun c => place c = t) f l).sum = (l.map f).sum := by
  induction l with
  | nil => simp [wireSum]
  | cons c rest ih =>
    have hone : (places.map fun t => if place c = t then f c else 0).sum = f c := by
      exact sum_map_ite hnodup (hmem c List.mem_cons_self)
    simp only [wireSum_cons]
    rw [List.sum_map_add, hone, ih fun c hc => hmem c (List.mem_cons_of_mem _ hc), List.map_cons, List.sum_cons]

end Perception.Lib.Wiring
