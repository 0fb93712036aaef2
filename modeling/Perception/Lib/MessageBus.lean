import Mathlib.Data.List.Basic

/-!
# A message bus

Callbacks attached to topics. A request calls all that are attached to its topic, in the
order in which they were; nothing is ever detached.
-/
namespace Perception.Lib

set_option autoImplicit false

structure MessageBus (τ σ : Type) where
  m_map : List (τ × σ)

namespace MessageBus

variable {τ σ : Type} [DecidableEq τ]

def Attach (bus : MessageBus τ σ) (f : σ) (topic : τ) : MessageBus τ σ := ⟨bus.m_map ++ [(topic, f)]⟩

/-- The callbacks that a request on the topic calls. -/
def SendReq (bus : MessageBus τ σ) (topic : τ) : List σ :=
  (bus.m_map.filter fun e => e.1 = topic).map Prod.snd

theorem SendReq_Attach (bus : MessageBus τ σ) (f : σ) (t topic : τ) :
    (bus.Attach f t).SendReq topic = if t = topic then bus.SendReq topic ++ [f] else bus.SendReq topic := by
  rw [SendReq, Attach, List.filter_append, List.map_append]
  by_cases ht : t = topic
  · rw [if_pos ht, List.filter_cons_of_pos (by simpa using ht), List.filter_nil]
    rfl
  · rw [if_neg ht, List.filter_cons_of_neg (by simpa using ht), List.filter_nil, List.map_nil, List.append_nil]
    rfl

/-- How often a request calls a callback. -/
theorem count_SendReq_Attach [DecidableEq σ] (bus : MessageBus τ σ) (f g : σ) (t topic : τ) :
    ((bus.Attach f t).SendReq topic).count g =
      (bus.SendReq topic).count g + if t = topic ∧ f = g then 1 else 0 := by
  rw [SendReq_Attach]
  by_cases ht : t = topic
  · rw [if_pos ht, List.count_append, List.count_singleton]
    by_cases hf : f = g <;> simp [ht, hf]
  · rw [if_neg ht, if_neg fun h => ht h.1, Nat.add_zero]

end MessageBus

end Perception.Lib
