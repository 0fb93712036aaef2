import Mathlib.Data.Set.Finite.Basic
import Mathlib.Order.WellFounded

/-!
# Cycles and orders of finite relations

Elements of a list each of which has a predecessor in the list lie behind a cycle. Orders in which
nothing stands in front of what it depends on.
-/
namespace Perception.Lib.Precedence

set_option autoImplicit false

variable {α : Type} {r : α → α → Prop}

/-- There is a way back to no element. -/
def Acyclic (r : α → α → Prop) : Prop := ∀ a, ¬Relation.TransGen r a a

theorem not_acyclic_of_forall_pred {l : List α} (hne : l ≠ []) (hpred : ∀ a ∈ l, ∃ b ∈ l, r b a) : ¬Acyclic r := by
  intro hacyclic
  let before : {a // a ∈ l} → {a // a ∈ l} → Prop := fun b a => Relation.TransGen r b.1 a.1
  have htrans : IsTrans _ before := ⟨fun _ _ _ => Relation.TransGen.trans⟩
  have hirrefl : Std.Irrefl before := ⟨fun a => hacyclic a.1⟩
  have hfinite : Finite {a // a ∈ l} := (List.finite_toSet l).to_subtype
  have hwf : WellFounded before := Finite.wellFounded_of_trans_of_irrefl before
  obtain ⟨a₀, ha₀⟩ := List.exists_mem_of_ne_nil l hne
  obtain ⟨a, -, hmin⟩ := hwf.has_min Set.univ ⟨⟨a₀, ha₀⟩, trivial⟩
  obtain ⟨b, hb, hba⟩ := hpred a.1 a.2
  exact hmin ⟨b, hb⟩ trivial (.single hba)

/-- On a way back every element comes from another one of the way. -/
theorem exists_pred_of_transGen {a b : α} (hab : Relation.TransGen r a b) :
    ∃ c, r c b ∧ Relation.ReflTransGen r a c := by
  obtain ⟨c, hac, hcb⟩ := Relation.TransGen.tail'_iff.mp hab
  exact ⟨c, hcb, hac⟩

/-- What an element depends on stands in front of it. -/
def InOrder (r : α → α → Prop) (l : List α) : Prop := ∀ pre a post, l = pre ++ a :: post → ∀ b, r b a → b ∈ pre

/-- Elements all of whose predecessors are there already can follow in any order. -/
theorem InOrder.append {l l' : List α} (h : InOrder r l) (hnew : ∀ a ∈ l', ∀ b, r b a → b ∈ l) : InOrder r (l ++ l') := by
  intro pre a post hsplit b hba
  rcases List.append_eq_append_iff.mp hsplit with ⟨mid, hpre, hl'⟩ | ⟨mid, hl, hrest⟩
  · have ha : a ∈ l' := by
      rw [hl']
      exact List.mem_append_right _ List.mem_cons_self
    rw [hpre]
    exact List.mem_append_left _ (hnew a ha b hba)
  · cases mid with
    | nil =>
      rw [List.nil_append] at hrest
      rw [List.append_nil] at hl
      have ha : a ∈ l' := by
        rw [← hrest]
        exact List.mem_cons_self
      rw [← hl]
      exact hnew a ha b hba
    | cons c mid =>
      obtain ⟨rfl, -⟩ := List.cons.inj hrest
      exact h pre a mid hl b hba

theorem InOrder.front {l l' : List α} (h : InOrder r (l ++ l')) : InOrder r l := by
  intro pre a post hsplit b hba
  apply h pre a (post ++ l') _ b hba
  rw [hsplit, List.append_assoc, List.cons_append]

/-- What passes from all that an element depends on to the element holds of every element. -/
theorem InOrder.induction {P : α → Prop} {l : List α} (h : InOrder r l) (hstep : ∀ a ∈ l, (∀ b, r b a → P b) → P a) :
    ∀ a ∈ l, P a := by
  induction l using List.reverseRecOn with
  | nil => intro a ha; cases ha
  | append_singleton l last ih =>
    have hfront := ih h.front fun a ha => hstep a (List.mem_append_left _ ha)
    intro a ha
    rcases List.mem_append.mp ha with ha | ha
    · exact hfront a ha
    · rw [List.mem_singleton] at ha
      subst ha
      exact hstep a (List.mem_append_right _ List.mem_cons_self) fun b hba => hfront b (h l a [] rfl b hba)

/-- Nothing depends on itself or on what stands behind it. -/
theorem InOrder.pairwise_not {l : List α} (h : InOrder r l) (hnodup : l.Nodup) :
    (∀ a ∈ l, ¬r a a) ∧ l.Pairwise fun a b => ¬r b a := by
  induction l using List.reverseRecOn with
  | nil => exact ⟨fun a ha => absurd ha List.not_mem_nil, .nil⟩
  | append_singleton l last ih =>
    obtain ⟨hfront, -, hnot⟩ := List.nodup_append.mp hnodup
    obtain ⟨hself, hpairs⟩ := ih h.front hfront
    have hlast : ¬r last last := fun hr => hnot last (h l last [] rfl last hr) last List.mem_cons_self rfl
    refine ⟨?_, List.pairwise_append.mpr ⟨hpairs, List.pairwise_singleton _ _, ?_⟩⟩
    · intro a ha
      rcases List.mem_append.mp ha with ha | ha
      · exact hself a ha
      · rwa [List.mem_singleton.mp ha]
    · intro a ha b hb hr
      rw [List.mem_singleton] at hb
      subst hb
      obtain ⟨pre, post, rfl⟩ := List.append_of_mem ha
      have hmem : b ∈ pre := h pre a (post ++ [b]) (by rw [List.append_assoc, List.cons_append]) b hr
      exact hnot b (List.mem_append_left _ hmem) b List.mem_cons_self rfl

/-- What depends on an element stands behind it. -/
theorem InOrder.mem_behind {pre post : List α} {a b : α} (h : InOrder r (pre ++ a :: post)) (hnodup : (pre ++ a :: post).Nodup)
    (hab : r a b) (hb : b ∈ pre ++ a :: post) : b ∈ post := by
  obtain ⟨-, hrest, hnot⟩ := List.nodup_append.mp hnodup
  have ha : a ∉ pre := fun hmem => hnot a hmem a List.mem_cons_self rfl
  rcases List.mem_append.mp hb with hb | hb
  · exfalso
    obtain ⟨before, behind, rfl⟩ := List.append_of_mem hb
    have hmem : a ∈ before := h before b (behind ++ a :: post) (by rw [List.append_assoc, List.cons_append]) a hab
    exact ha (List.mem_append_left _ hmem)
  · rcases List.mem_cons.mp hb with rfl | hb
    · exact absurd (h pre b post rfl b hab) ha
    · exact hb

/-- Values that each follow from those an element depends on can be chosen all at once. -/
theorem InOrder.exists_values [DecidableEq α] {β : Type} {Q : α → (α → β) → Prop} {l : List α} (h : InOrder r l)
    (hnodup : l.Nodup) (start : α → β)
    (hlocal : ∀ a f f', (∀ b, r b a → f b = f' b) → f a = f' a → Q a f → Q a f')
    (hstep : ∀ a ∈ l, ∀ f, (∀ b, r b a → Q b f) → ∃ v, Q a (Function.update f a v)) : ∃ f, ∀ a ∈ l, Q a f := by
  induction l using List.reverseRecOn with
  | nil => exact ⟨start, fun a ha => absurd ha List.not_mem_nil⟩
  | append_singleton l last ih =>
    obtain ⟨hfront, -, hnot⟩ := List.nodup_append.mp hnodup
    have hlast : last ∉ l := fun hmem => hnot last hmem last List.mem_cons_self rfl
    obtain ⟨f, hf⟩ := ih h.front hfront fun a ha => hstep a (List.mem_append_left _ ha)
    obtain ⟨v, hv⟩ := hstep last (List.mem_append_right _ List.mem_cons_self) f fun b hb => hf b (h l last [] rfl b hb)
    refine ⟨Function.update f last v, fun a ha => ?_⟩
    rcases List.mem_append.mp ha with ha | ha
    · obtain ⟨before, behind, rfl⟩ := List.append_of_mem ha
      -- neither the element nor what it depends on is the last one
      apply hlocal a f _ _ _ (hf a ha)
      · intro b hb
        have hmem := h.front before a behind rfl b hb
        exact (Function.update_of_ne (ne_of_mem_of_not_mem (List.mem_append_left _ hmem) hlast) _ _).symm
      · exact (Function.update_of_ne (ne_of_mem_of_not_mem ha hlast) _ _).symm
    · rwa [List.mem_singleton.mp ha]

end Perception.Lib.Precedence
