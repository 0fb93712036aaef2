import Mathlib.Combinatorics.Hall.Finite

/-!
# Partners for the elements of a list

A relation between the elements of two lists, and whether the elements of the first can each
have a partner of their own. The elements are known by their places, so that equal ones count
as two.
-/
namespace Perception.Lib

set_option autoImplicit false

variable {α β : Type} {accepts : α → β → Bool} {xs : List α} {ys : List β}

/-- Each `x` has a partner that it accepts, and no two the same. -/
def Matched (accepts : α → β → Bool) (xs : List α) (ys : List β) : Prop :=
  ∃ partner : Fin xs.length → Fin ys.length, Function.Injective partner ∧
    ∀ i, accepts (xs.get i) (ys.get (partner i)) = true

/-- The places of what the element at `i` accepts. -/
def candidates (accepts : α → β → Bool) (xs : List α) (ys : List β) (i : Fin xs.length) : Finset (Fin ys.length) :=
  Finset.univ.filter fun j => accepts (xs.get i) (ys.get j) = true

theorem mem_candidates {i : Fin xs.length} {j : Fin ys.length} :
    j ∈ candidates accepts xs ys i ↔ accepts (xs.get i) (ys.get j) = true := by
  rw [candidates, Finset.mem_filter]
  exact and_iff_right (Finset.mem_univ j)

/-- Any of them together accept at least as many as they are. -/
def Hall (accepts : α → β → Bool) (xs : List α) (ys : List β) : Prop :=
  ∀ s : Finset (Fin xs.length), s.card ≤ (s.biUnion (candidates accepts xs ys)).card

theorem matched_iff_hall : Matched accepts xs ys ↔ Hall accepts xs ys := by
  unfold Matched Hall
  simp only [← mem_candidates]
  exact (Finset.all_card_le_biUnion_card_iff_existsInjective' _).symm

theorem Matched.length_le (h : Matched accepts xs ys) : xs.length ≤ ys.length := by
  obtain ⟨partner, hinj, -⟩ := h
  simpa using Fintype.card_le_of_injective partner hinj

theorem Matched.exists_accepts (h : Matched accepts xs ys) {x : α} (hx : x ∈ xs) : ∃ y ∈ ys, accepts x y = true := by
  obtain ⟨partner, -, hacc⟩ := h
  obtain ⟨i, rfl⟩ := List.get_of_mem hx
  exact ⟨_, List.get_mem ys (partner i), hacc i⟩

/-- Where no `y` is accepted twice, it is enough that each `x` accepts one. -/
theorem matched_of_exclusive
    (hexcl : ∀ i i' j, accepts (xs.get i) (ys.get j) = true → accepts (xs.get i') (ys.get j) = true → i = i')
    (hone : ∀ x ∈ xs, ∃ y ∈ ys, accepts x y = true) : Matched accepts xs ys := by
  have hplace : ∀ i, ∃ j, accepts (xs.get i) (ys.get j) = true := by
    intro i
    obtain ⟨y, hy, hacc⟩ := hone _ (List.get_mem xs i)
    obtain ⟨j, rfl⟩ := List.get_of_mem hy
    exact ⟨j, hacc⟩
  choose partner hacc using hplace
  refine ⟨partner, fun i i' heq => hexcl i i' (partner i) (hacc i) ?_, hacc⟩
  rw [heq]
  exact hacc i'

end Perception.Lib
