import Perception.MetaNN.Lawful

/-!
# Training steps

Any run of forward and backward steps in which no backward step is without its forward step.
-/
namespace Perception.MetaNN

set_option autoImplicit false

open Perception.Lib.StateExcept

variable {Name V W S D : Type}

/-- A step of a layer with what it gives back. -/
inductive Event (Name V : Type) where
  | FeedForward (p_in res : VarTypeDict Name V)
  | FeedBackward (p_grad res : VarTypeDict Name V)

/-- The steps that a layer makes one after the other. -/
inductive Steps (ops : LayerOps Name V W S) : S → List (Event Name V) → S → Prop where
  | nil (obj : S) : Steps ops obj [] obj
  | forward {obj obj' obj'' : S} {x y : VarTypeDict Name V} {events : List (Event Name V)} :
      ops.FeedForward x obj = .ok (y, obj') → Steps ops obj' events obj'' →
        Steps ops obj (.FeedForward x y :: events) obj''
  | backward {obj obj' obj'' : S} {grad gin : VarTypeDict Name V} {events : List (Event Name V)} :
      ops.FeedBackward grad obj = .ok (gin, obj') → Steps ops obj' events obj'' →
        Steps ops obj (.FeedBackward grad gin :: events) obj''

/-- How many forward steps stay open; none if a backward step comes without one. -/
def stillOpen : Nat → List (Event Name V) → Option Nat
  | n, [] => some n
  | n, .FeedForward _ _ :: events => stillOpen (n + 1) events
  | 0, .FeedBackward _ _ :: _ => none
  | n + 1, .FeedBackward _ _ :: events => stillOpen n events

section

variable [Fintype Name] [Plus V] [Zero D] [Moving V D]

/-- Every forward step evaluates the layer, and every backward step gives the gradient of the last forward
step that is open. `δ` is what the weights get from all of them. -/
inductive Answers (M : Meaning Name V W) (IsFeedbackOutput : Bool) (IsUpdate : W → Bool) (θ : W → V) :
    List (VarTypeDict Name V) → List (Event Name V) → List (VarTypeDict Name V) → ((W → D) → ℝ) → Prop where
  | nil (xs : List (VarTypeDict Name V)) : Answers M IsFeedbackOutput IsUpdate θ xs [] xs fun _ => 0
  | forward {xs xs' : List (VarTypeDict Name V)} {x y : VarTypeDict Name V} {events : List (Event Name V)}
      {δ : (W → D) → ℝ} : M.Eval θ x y → Answers M IsFeedbackOutput IsUpdate θ (x :: xs) events xs' δ →
        Answers M IsFeedbackOutput IsUpdate θ xs (.FeedForward x y :: events) xs' δ
  | backward {xs xs' : List (VarTypeDict Name V)} {x grad gin : VarTypeDict Name V} {events : List (Event Name V)}
      {δ δ' : (W → D) → ℝ} : IsGradient M IsFeedbackOutput IsUpdate θ x grad gin δ →
        Answers M IsFeedbackOutput IsUpdate θ xs events xs' δ' →
          Answers M IsFeedbackOutput IsUpdate θ (x :: xs) (.FeedBackward grad gin :: events) xs' fun p => δ p + δ' p

variable {ops : LayerOps Name V W S} {M : Meaning Name V W} {fbo : Bool} {upd : W → Bool}
  {Holds : S → (W → V) → List (VarTypeDict Name V) → ((W → D) → ℝ) → Prop} {θ : W → V}

/-- A lawful layer answers every run, and keeps what is open. -/
theorem Lawful.answers (hlaw : Lawful ops M fbo upd Holds) {obj obj' : S} {events : List (Event Name V)}
    (hsteps : Steps ops obj events obj') {xs : List (VarTypeDict Name V)} {w : (W → D) → ℝ}
    (hholds : Holds obj θ xs w) {n : Nat} (hopen : stillOpen xs.length events = some n) :
    ∃ xs' δ, Answers M fbo upd θ xs events xs' δ ∧ Holds obj' θ xs' (fun p => w p + δ p) ∧ xs'.length = n := by
  induction hsteps generalizing xs w with
  | nil obj =>
    refine ⟨xs, fun _ => 0, .nil xs, ?_, Option.some.inj hopen⟩
    simpa using hholds
  | @forward _ _ _ x y events hstep _ ih =>
    obtain ⟨heval, hnext⟩ := hlaw.forward hholds hstep
    obtain ⟨xs', δ, hans, hlast, hlen⟩ := @ih (x :: xs) w hnext hopen
    exact ⟨xs', δ, .forward heval hans, hlast, hlen⟩
  | @backward _ _ _ grad gin events hstep _ ih =>
    cases xs with
    | nil => cases hopen
    | cons x xs =>
      obtain ⟨δ, hnext, hgrad⟩ := hlaw.backward hholds hstep
      obtain ⟨xs', δ', hans, hlast, hlen⟩ := @ih xs _ hnext hopen
      refine ⟨xs', fun p => δ p + δ' p, .backward hgrad hans, ?_, hlen⟩
      simpa only [add_assoc] using hlast

end

end Perception.MetaNN
