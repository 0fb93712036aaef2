import Mathlib.Data.List.Forall2

/-!
# Collecting results that may fail

`collect f xs` joins the lists that `f` yields, in order, and fails with the first
failure.
-/
namespace Perception.Lib

set_option autoImplicit false

variable {ε α β : Type}

def collect (f : α → Except ε (List β)) : List α → Except ε (List β)
  | [] => .ok []
  | a :: as =>
    match f a with
    | .error e => .error e
    | .ok ys =>
      match collect f as with
      | .error e => .error e
      | .ok zs => .ok (ys ++ zs)

theorem collect_cons_eq_ok {f : α → Except ε (List β)} {a : α} {as : List α} {bs : List β} :
    collect f (a :: as) = .ok bs ↔ ∃ ys zs, f a = .ok ys ∧ collect f as = .ok zs ∧ bs = ys ++ zs := by
  rw [collect]
  cases f a with
  | error e => simp
  | ok ys =>
    cases collect f as with
    | error e => simp
    | ok zs => simp [eq_comm]

theorem collect_singleton (f : α → Except ε (List β)) (a : α) : collect f [a] = f a := by
  unfold collect
  cases f a <;> simp [collect]

/-- When the whole succeeds, every part does. -/
theorem ok_of_collect {f : α → Except ε (List β)} {as : List α} {bs : List β}
    (h : collect f as = .ok bs) : ∀ a ∈ as, ∃ ys, f a = .ok ys := by
  induction as generalizing bs with
  | nil => simp
  | cons a as ih =>
    obtain ⟨ys, zs, ha, has, -⟩ := collect_cons_eq_ok.mp h
    exact List.forall_mem_cons.mpr ⟨⟨ys, ha⟩, ih has⟩

/-- What the whole has comes from one part. -/
theorem mem_of_collect {f : α → Except ε (List β)} {as : List α} {bs : List β} (h : collect f as = .ok bs) {b : β}
    (hb : b ∈ bs) : ∃ a ∈ as, ∃ ys, f a = .ok ys ∧ b ∈ ys := by
  induction as generalizing bs with
  | nil =>
    cases h
    cases hb
  | cons a as ih =>
    obtain ⟨ys, zs, ha, has, rfl⟩ := collect_cons_eq_ok.mp h
    rcases List.mem_append.mp hb with hb | hb
    · exact ⟨a, List.mem_cons_self, ys, ha, hb⟩
    · obtain ⟨a', ha', h'⟩ := ih has hb
      exact ⟨a', List.mem_cons_of_mem a ha', h'⟩

/-- When the whole succeeds, it is the join of what the parts yield. -/
theorem eq_flatMap_of_collect {f : α → Except ε (List β)} {g : α → List β} {as : List α} {bs : List β}
    (hg : ∀ a ∈ as, ∀ ys, f a = .ok ys → ys = g a) (h : collect f as = .ok bs) : bs = as.flatMap g := by
  induction as generalizing bs with
  | nil =>
    cases h
    rfl
  | cons a as ih =>
    obtain ⟨hga, hgas⟩ := List.forall_mem_cons.mp hg
    obtain ⟨ys, zs, ha, has, rfl⟩ := collect_cons_eq_ok.mp h
    rw [hga ys ha, ih hgas has, List.flatMap_cons]

/-- When every part succeeds with what `g` says, the whole is their join. -/
theorem collect_eq_flatMap {f : α → Except ε (List β)} {g : α → List β} {as : List α}
    (h : ∀ a ∈ as, f a = .ok (g a)) : collect f as = .ok (as.flatMap g) := by
  induction as with
  | nil => rfl
  | cons a as ih =>
    obtain ⟨ha, has⟩ := List.forall_mem_cons.mp h
    exact collect_cons_eq_ok.mpr ⟨g a, as.flatMap g, ha, ih has, List.flatMap_cons⟩

/-- The results of a `mapM` that returns, one for each element. -/
theorem mapM_eq_some_iff {f : α → Option β} {as : List α} {bs : List β} :
    as.mapM f = some bs ↔ List.Forall₂ (fun a b => f a = some b) as bs := by
  induction as generalizing bs with
  | nil =>
    rw [List.mapM_nil, List.forall₂_nil_left_iff]
    exact ⟨fun h => (Option.some.inj h).symm, fun h => congrArg some h.symm⟩
  | cons a as ih =>
    rw [List.mapM_cons, List.forall₂_cons_left_iff]
    constructor
    · intro h
      obtain ⟨b, hb, hrest⟩ := Option.bind_eq_some_iff.mp h
      obtain ⟨bs', hbs', hcons⟩ := Option.bind_eq_some_iff.mp hrest
      exact ⟨b, bs', hb, ih.mp hbs', (Option.some.inj hcons).symm⟩
    · rintro ⟨b, bs', hb, hbs', rfl⟩
      exact Option.bind_eq_some_iff.mpr ⟨b, hb, Option.bind_eq_some_iff.mpr ⟨bs', ih.mpr hbs', rfl⟩⟩

theorem exists_mapM_of_forall {f : α → Option β} {as : List α} (h : ∀ a ∈ as, ∃ b, f a = some b) : ∃ bs, as.mapM f = some bs := by
  induction as with
  | nil => exact ⟨[], mapM_eq_some_iff.mpr .nil⟩
  | cons a as ih =>
    obtain ⟨ha, hrest⟩ := List.forall_mem_cons.mp h
    obtain ⟨b, hb⟩ := ha
    obtain ⟨bs, hbs⟩ := ih hrest
    exact ⟨b :: bs, mapM_eq_some_iff.mpr (.cons hb (mapM_eq_some_iff.mp hbs))⟩

end Perception.Lib
