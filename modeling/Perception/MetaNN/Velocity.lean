import Mathlib
import Perception.MetaNN.Layers
import Perception.MetaNN.Lawful

/-!
# Matrices of reals that move

A matrix moves with one shape and a derivative for every element. A gradient is on a velocity what the sum
of the products of their elements is.
-/
namespace Perception.MetaNN

set_option autoImplicit false

open Perception.Lib.Wiring Finset

namespace Matrix

theorem sumTo_eq {E : Type} [AddCommMonoid E] (f : Nat → E) (n : Nat) : sumTo f n = ∑ k ∈ range n, f k := by
  induction n with
  | zero => rfl
  | succ n ih => rw [sumTo, ih, sum_range_succ]

/-- The sum of the products of the elements. -/
def inner (g : Matrix ℝ) (d : Nat → Nat → ℝ) : ℝ := ∑ i ∈ range g.RowNum, ∑ j ∈ range g.ColNum, g.val i j * d i j

def HasVelocity (f : ℝ → Matrix ℝ) (d : Nat → Nat → ℝ) : Prop :=
  ∃ r c, (∀ τ, (f τ).RowNum = r ∧ (f τ).ColNum = c) ∧
    ∀ i < r, ∀ j < c, HasDerivAt (fun τ => (f τ).val i j) (d i j) 0

theorem zip_eq_some {E : Type} {f : E → E → E} {a b c : Matrix E} (h : zip f a b = some c) :
    SameShape a b ∧ c = ⟨a.RowNum, a.ColNum, fun i j => f (a.val i j) (b.val i j)⟩ := by
  unfold zip at h
  split at h
  · next hshape => exact ⟨hshape, (Option.some.inj h).symm⟩
  · cases h

end Matrix

noncomputable instance : Moving (Matrix ℝ) (Nat → Nat → ℝ) where
  pair := Matrix.inner
  HasVelocity := Matrix.HasVelocity
  pair_still g := by simp [Matrix.inner]
  pair_plus {a b c} d h := by
    obtain ⟨⟨hrow, hcol⟩, rfl⟩ := Matrix.zip_eq_some h
    unfold Matrix.inner
    rw [hrow, hcol, ← sum_add_distrib]
    apply sum_congr rfl
    intro i _
    rw [← sum_add_distrib]
    apply sum_congr rfl
    intro j _
    exact add_mul _ _ _
  hasVelocity_still v := ⟨v.RowNum, v.ColNum, fun _ => ⟨rfl, rfl⟩, fun i _ j _ => hasDerivAt_const 0 _⟩

namespace Matrix

/-- What an operator makes of the elements has a velocity if every element has. -/
theorem hasVelocity_zip {f : ℝ → ℝ → ℝ} {a b c : ℝ → Matrix ℝ} {da db d : Nat → Nat → ℝ} (ha : HasVelocity a da)
    (hb : HasVelocity b db) (hc : ∀ τ, zip f (a τ) (b τ) = some (c τ))
    (hderiv : ∀ (u v : ℝ → ℝ) i j, u 0 = (a 0).val i j → v 0 = (b 0).val i j → HasDerivAt u (da i j) 0 →
      HasDerivAt v (db i j) 0 → HasDerivAt (fun τ => f (u τ) (v τ)) (d i j) 0) : HasVelocity c d := by
  obtain ⟨r, k, hshape, hda⟩ := ha
  obtain ⟨r', k', hshape', hdb⟩ := hb
  obtain ⟨⟨hrow, hcol⟩, -⟩ := zip_eq_some (hc 0)
  rw [(hshape 0).1, (hshape' 0).1] at hrow
  rw [(hshape 0).2, (hshape' 0).2] at hcol
  subst hrow hcol
  have hceq : ∀ τ, c τ = ⟨(a τ).RowNum, (a τ).ColNum, fun i j => f ((a τ).val i j) ((b τ).val i j)⟩ :=
    fun τ => (zip_eq_some (hc τ)).2
  refine ⟨r', k', fun τ => ?_, fun i hi j hj => ?_⟩
  · rw [hceq]
    exact hshape τ
  · simp only [hceq]
    exact hderiv _ _ i j rfl rfl (hda i hi j hj) (hdb i hi j hj)

theorem hasVelocity_map {f : ℝ → ℝ} {a : ℝ → Matrix ℝ} {da d : Nat → Nat → ℝ} (ha : HasVelocity a da)
    (hderiv : ∀ i j, ∀ u : ℝ → ℝ, u 0 = (a 0).val i j → HasDerivAt u (da i j) 0 →
      HasDerivAt (fun τ => f (u τ)) (d i j) 0) : HasVelocity (fun τ => (a τ).map f) d := by
  obtain ⟨r, k, hshape, hda⟩ := ha
  exact ⟨r, k, hshape, fun i hi j hj => hderiv i j _ rfl (hda i hi j hj)⟩

end Matrix

/-- The velocity of a record in which one entry moves. -/
def single (port : Port) (d : Nat → Nat → ℝ) : Port → Nat → Nat → ℝ := Function.update (fun _ => 0) port d

theorem pairAt_still (g : Option (Matrix ℝ)) : pairAt Moving.pair g (0 : Nat → Nat → ℝ) = 0 := by
  cases g with
  | none => rfl
  | some g => exact Moving.pair_still g

theorem gradOn_single (grad : VarTypeDict Port (Matrix ℝ)) (port : Port) (d : Nat → Nat → ℝ) :
    gradOn grad (single port d) = entryOn (grad port) d := by
  unfold gradOn single
  rw [pairing_update_right grad _ port d (pairAt_still (grad port)), pairing_still, add_zero]
  rfl

/-- A record into which an entry is set. -/
theorem gradOn_set {res : VarTypeDict Port (Matrix ℝ)} {port : Port} (v : Option (Matrix ℝ)) (d : Port → Nat → Nat → ℝ)
    (hnone : res port = none) : gradOn (res.Set port v) d = entryOn v (d port) + gradOn res d := by
  have hset : gradOn (res.Set port v) d + pairAt Moving.pair (res port) (d port) =
      entryOn v (d port) + gradOn res d := pairing_update_left res d port v
  rw [hnone] at hset
  exact (add_zero _).symm.trans hset

theorem gradOn_output (v : Matrix ℝ) (d : Port → Nat → Nat → ℝ) : gradOn (output v) d = Matrix.inner v (d .LayerIo) := by
  unfold output
  rw [gradOn_set (some v) d rfl, gradOn_create, add_zero]
  rfl

theorem recordVelocity_output {y : ℝ → Matrix ℝ} {d : Nat → Nat → ℝ} (hy : Matrix.HasVelocity y d) :
    RecordVelocity (fun τ => output (y τ)) (single .LayerIo d) := by
  intro port
  by_cases hport : port = .LayerIo
  · subst hport
    exact .inl ⟨y, fun τ => by simp [output, VarTypeDict.Set], by rw [single, Function.update_self]; exact hy⟩
  · exact .inr ⟨fun τ => by simp [output, VarTypeDict.Set, hport, VarTypeDict.Create], by simp [single, hport]⟩

/-- An entry that is there has the velocity of the record. -/
theorem hasVelocity_of_entry {f : ℝ → Option (Matrix ℝ)} {v : ℝ → Matrix ℝ} {d : Nat → Nat → ℝ} (h : EntryVelocity f d)
    (hv : ∀ τ, f τ = some (v τ)) : Matrix.HasVelocity v d := by
  rcases h with ⟨g, hg, hvel⟩ | ⟨hnone, -⟩
  · have hsame : g = v := funext fun τ => Option.some.inj ((hg τ).symm.trans (hv τ))
    rwa [← hsame]
  · have h0 := hv 0
    rw [hnone 0] at h0
    cases h0

end Perception.MetaNN
