import Perception.MetaNN.Gradient

/-!
# Layers over whole runs

A layer keeps what its forward steps leave for its backward steps on stacks. The law of a layer says that
a backward step gives the gradients of the last forward step that none has gone back over.
-/
namespace Perception.MetaNN

set_option autoImplicit false

open Perception.Lib.Precedence Perception.Lib.StateExcept Perception.Lib.Wiring

variable {Tag Name Layer V D : Type} [Fintype Name] [Plus V] [Zero D] [Moving V D]

/-- The law of a layer. `Holds` says of an object which weights it has, the inputs of which forward steps
it keeps, the last first, and what the gradients it has for its weights are on a velocity. -/
structure Lawful {W S : Type} (ops : LayerOps Name V W S) (M : Meaning Name V W) (IsFeedbackOutput : Bool)
    (IsUpdate : W → Bool) (Holds : S → (W → V) → List (VarTypeDict Name V) → ((W → D) → ℝ) → Prop) : Prop where
  forward {obj obj' : S} {θ : W → V} {xs : List (VarTypeDict Name V)} {w : (W → D) → ℝ} {x y : VarTypeDict Name V} :
    Holds obj θ xs w → ops.FeedForward x obj = .ok (y, obj') → M.Eval θ x y ∧ Holds obj' θ (x :: xs) w
  backward {obj obj' : S} {θ : W → V} {xs : List (VarTypeDict Name V)} {w : (W → D) → ℝ} {x grad gin : VarTypeDict Name V} :
    Holds obj θ (x :: xs) w → ops.FeedBackward grad obj = .ok (gin, obj') →
      ∃ δ, Holds obj' θ xs (fun p => w p + δ p) ∧ IsGradient M IsFeedbackOutput IsUpdate θ x grad gin δ
  noThrow {obj : S} {θ : W → V} {xs : List (VarTypeDict Name V)} {w : (W → D) → ℝ} {x grad : VarTypeDict Name V}
    {what : String} : Holds obj θ (x :: xs) w → ops.FeedBackward grad obj ≠ .error (.runtime_error what)
  collect {obj : S} {θ : W → V} {xs : List (VarTypeDict Name V)} {w : (W → D) → ℝ} : Holds obj θ xs w →
    Holds (ops.GradCollect obj).2 θ xs (fun _ => 0) ∧
      ∀ p, w p = ((ops.GradCollect obj).1.map fun g => Moving.pair g.2 (p g.1)).sum
  neutral {obj : S} {θ : W → V} {w : (W → D) → ℝ} : Holds obj θ [] w →
    ops.NeutralInvariant (ops.GradCollect obj).2 = .ok ()

section

variable [DecidableEq Tag] [DecidableEq Name] {W S : Tag → Type} (topo : ComposeTopology Tag Name Layer)
  (sublayers : ∀ tag, LayerOps Name V (W tag) (S tag)) (M : ∀ tag, Meaning Name V (W tag))
  (Holds : ∀ tag, S tag → (W tag → V) → List (VarTypeDict Name V) → ((W tag → D) → ℝ) → Prop)

/-- Every sublayer keeps what the equations bring it for each input. -/
def HoldsAll (objs : ∀ tag, S tag) (θ : (Σ tag, W tag) → V) (xs : List (VarTypeDict Name V))
    (w : ((Σ tag, W tag) → D) → ℝ) : Prop :=
  ∃ (ins : List (VarTypeDict Name V × (Tag → VarTypeDict Name V))) (ws : ∀ tag, (W tag → D) → ℝ),
    ins.map Prod.fst = xs ∧ (∀ e ∈ ins, Solves topo M θ e.1 e.2) ∧
    (∀ t ∈ topo.tags, Holds t (objs t) (fun i => θ ⟨t, i⟩) (ins.map fun e => portIn topo e.1 e.2 t) (ws t)) ∧
    w = fun p => (topo.tags.map fun t => ws t fun i => p ⟨t, i⟩).sum

variable {topo sublayers M Holds}

omit [Fintype Name] in
theorem fill_ne_throw {C : Type} {sel : C → Prop} [DecidablePred sel] {key : C → Name} {get : C → Except Fault (Option V)}
    {l : List C} {start : VarTypeDict Name V} {what : String} (hget : ∀ c, get c ≠ .error (.runtime_error what)) :
    VarTypeDict.fill accumulate sel key get l start ≠ .error (.runtime_error what) := by
  induction l generalizing start with
  | nil => intro h; cases h
  | cons c rest ih =>
    rw [VarTypeDict.fill]
    split
    · intro h
      rcases except_bind_eq_error.mp h with h | ⟨tmp, -, h⟩
      · exact hget c h
      · rcases except_bind_eq_error.mp h with h | ⟨cur, -, h⟩
        · exact accumulate_ne_throw h
        · exact ih h
    · exact ih

omit [Fintype Name] in
/-- A pass back only throws what a sublayer throws. -/
theorem throw_of_FeedBackwardFun {grad res : VarTypeDict Name V} {l : List Tag} {internal : InternalResult Tag Name V}
    {objs : ∀ tag, S tag} {what : String} (hnodup : l.Nodup)
    (h : FeedBackwardFun topo sublayers grad l internal res objs = .error (.runtime_error what)) :
    ∃ t ∈ l, ∃ g, (sublayers t).FeedBackward g (objs t) = .error (.runtime_error what) := by
  induction l generalizing internal res objs with
  | nil => cases h
  | cons tag rest ih =>
    obtain ⟨htag, hrest⟩ := List.nodup_cons.mp hnodup
    rw [FeedBackwardFun] at h
    rcases except_bind_eq_error.mp h with h | ⟨grad1, -, h⟩
    · exact absurd h (fill_ne_throw fun c h => by cases h)
    rcases except_bind_eq_error.mp h with h | ⟨grad2, -, h⟩
    · refine absurd h (fill_ne_throw fun c h => ?_)
      unfold InternalResult.Get at h
      split at h <;> cases h
    rcases except_bind_eq_error.mp h with h | ⟨⟨curLayerRes, obj⟩, -, h⟩
    · exact ⟨tag, List.mem_cons_self, grad2, h⟩
    rcases except_bind_eq_error.mp h with h | ⟨new_res, -, h⟩
    · exact absurd h (fill_ne_throw fun c h => by cases h)
    obtain ⟨t, ht, g, hg⟩ := ih hrest h
    rw [Function.update_of_ne (ne_of_mem_of_not_mem ht htag)] at hg
    exact ⟨t, List.mem_cons_of_mem _ ht, g, hg⟩

variable (sublayers) in
omit [Fintype Name] [Plus V] [DecidableEq Name] in
/-- Every sublayer is collected from once. -/
theorem GradCollectFun_spec {l : List Tag} (objs : ∀ tag, S tag) (hnodup : l.Nodup) :
    (∀ t, (GradCollectFun sublayers l objs).2 t = if t ∈ l then ((sublayers t).GradCollect (objs t)).2 else objs t) ∧
      (GradCollectFun sublayers l objs).1 =
        l.flatMap fun t => ((sublayers t).GradCollect (objs t)).1.map fun g => (⟨t, g.1⟩, g.2) := by
  induction l generalizing objs with
  | nil => exact ⟨fun t => by simp [GradCollectFun], rfl⟩
  | cons tag rest ih =>
    obtain ⟨htag, hrest⟩ := List.nodup_cons.mp hnodup
    obtain ⟨hobjs, hgrads⟩ := ih (Function.update objs tag ((sublayers tag).GradCollect (objs tag)).2) hrest
    refine ⟨fun t => ?_, ?_⟩
    · rw [GradCollectFun]
      show (GradCollectFun sublayers rest _).2 t = _
      rw [hobjs]
      by_cases ht : t = tag
      · subst ht
        rw [if_neg htag, Function.update_self, if_pos List.mem_cons_self]
      · simp [ht]
    · rw [GradCollectFun]
      show _ ++ (GradCollectFun sublayers rest _).1 = _
      rw [hgrads, List.flatMap_cons]
      congr 1
      apply List.flatMap_congr
      intro t ht
      rw [Function.update_of_ne (ne_of_mem_of_not_mem ht htag)]

omit [Fintype Name] [Plus V] [DecidableEq Name] [DecidableEq Tag] in
theorem NeutralInvariantFun_eq_ok {l : List Tag} {objs : ∀ tag, S tag}
    (h : ∀ t ∈ l, (sublayers t).NeutralInvariant (objs t) = .ok ()) : NeutralInvariantFun sublayers objs l = .ok () := by
  induction l with
  | nil => rfl
  | cons tag rest ih =>
    rw [NeutralInvariantFun, h tag List.mem_cons_self]
    exact ih fun t ht => h t (List.mem_cons_of_mem _ ht)

/-- Lawful sublayers make a lawful layer. -/
theorem lawful_ComposeKernel {plainFBO : Bool} {fbo : Tag → Bool} {upd : ∀ tag, W tag → Bool} (hports : NoPortTwice topo)
    (hpol : PoliciesAgree topo plainFBO fbo upd)
    (hsub : ∀ t ∈ topo.tags, Lawful (sublayers t) (M t) (fbo t) (upd t) (Holds t)) :
    Lawful (ComposeKernel topo sublayers) (composeMeaning topo M) plainFBO (fun i => upd i.1 i.2)
      (HoldsAll topo M Holds) where
  forward := by
    rintro objs objs' θ xs w x y ⟨ins, ws, rfl, hsolves, hholds, rfl⟩ hstep
    obtain ⟨res, hlayers, -, rfl⟩ := (FeedForward_iff topo sublayers x objs y objs').mp hstep
    have heval : Solves topo M θ x res := fun t ht => ((hsub t ht).forward (hholds t ht) (hlayers t ht)).1
    refine ⟨⟨res, heval, rfl⟩, (x, res) :: ins, ws, rfl, ?_, fun t ht => ?_, rfl⟩
    · intro e he
      rcases List.mem_cons.mp he with rfl | he
      · exact heval
      · exact hsolves e he
    · exact ((hsub t ht).forward (hholds t ht) (hlayers t ht)).2
  backward := by
    rintro objs objs' θ xs w x grad gin ⟨ins, ws, hins, hsolves, hholds, rfl⟩ hstep
    obtain ⟨e, ins, rfl⟩ : ∃ e rest, ins = e :: rest := by
      cases ins with
      | nil => cases hins
      | cons e rest => exact ⟨e, rest, rfl⟩
    obtain ⟨rfl, hrest⟩ := List.cons.inj hins
    have hpass : FeedBackwardFun topo sublayers grad topo.tags.reverse
        (internalOf [] fun _ => (VarTypeDict.Create : VarTypeDict Name V)) VarTypeDict.Create objs = .ok (gin, objs') := hstep
    obtain ⟨gins, -, hlayers, -, hgin⟩ := FeedBackwardFun_spec (List.append_nil topo.tags).symm hpass
    have hback : ∀ t, ∃ g δ, t ∈ topo.tags →
        (∀ d : Name → D, gradOn g d = reaching topo grad gins t d) ∧
        Holds t (objs' t) (fun i => θ ⟨t, i⟩) (ins.map fun e => portIn topo e.1 e.2 t) (fun p => ws t p + δ p) ∧
        IsGradient (M t) (fbo t) (upd t) (fun i => θ ⟨t, i⟩) (portIn topo e.1 e.2 t) g (gins t) δ := by
      intro t
      by_cases ht : t ∈ topo.tags
      · obtain ⟨g, hg, hreach⟩ := hlayers t ht
        obtain ⟨δ, hnext, hgrad⟩ := (hsub t ht).backward (hholds t ht) hg
        exact ⟨g, δ, fun _ => ⟨hreach, hnext, hgrad⟩⟩
      · exact ⟨VarTypeDict.Create, fun _ => 0, fun hmem => absurd hmem ht⟩
    choose g δ hback using hback
    refine ⟨fun p => (topo.tags.map fun t => δ t fun i => p ⟨t, i⟩).sum,
      ⟨ins, fun t p => ws t p + δ t p, hrest, fun e he => hsolves e (List.mem_cons_of_mem _ he),
        fun t ht => (hback t ht).2.1, ?_⟩, ?_⟩
    · funext p
      rw [List.sum_map_add]
    · apply isGradient_compose hports hpol (hsolves e List.mem_cons_self) (fun t ht => (hback t ht).2.2)
        (fun t ht => (hback t ht).1)
      intro d
      rw [hgin d, gradOn_create, zero_add]
  noThrow := by
    rintro objs θ xs w x grad what ⟨ins, ws, hins, -, hholds, -⟩ hstep
    obtain ⟨t, ht, g, hg⟩ := throw_of_FeedBackwardFun (List.nodup_reverse.mpr topo.nodup_tags) hstep
    rw [List.mem_reverse] at ht
    cases ins with
    | nil => cases hins
    | cons e ins => exact (hsub t ht).noThrow (hholds t ht) hg
  collect := by
    rintro objs θ xs w ⟨ins, ws, hins, hsolves, hholds, rfl⟩
    obtain ⟨hobjs, hgrads⟩ := GradCollectFun_spec sublayers objs topo.nodup_tags
    refine ⟨⟨ins, fun _ _ => 0, hins, hsolves, fun t ht => ?_, ?_⟩, fun p => ?_⟩
    · show Holds t ((GradCollectFun sublayers topo.tags objs).2 t) _ _ _
      rw [hobjs, if_pos ht]
      exact ((hsub t ht).collect (hholds t ht)).1
    · funext p
      simp
    · show (topo.tags.map fun t => ws t fun i => p ⟨t, i⟩).sum =
        ((GradCollectFun sublayers topo.tags objs).1.map fun g => Moving.pair g.2 (p g.1)).sum
      rw [hgrads, List.flatMap_def, List.map_flatten, List.sum_flatten, List.map_map, List.map_map]
      congr 1
      apply List.map_congr_left
      intro t ht
      rw [((hsub t ht).collect (hholds t ht)).2]
      simp only [Function.comp_apply, List.map_map]
      rfl
  neutral := by
    rintro objs θ w ⟨ins, ws, hins, -, hholds, rfl⟩
    have hnil : ins = [] := List.map_eq_nil_iff.mp hins
    subst hnil
    apply NeutralInvariantFun_eq_ok
    intro t ht
    obtain ⟨hobjs, -⟩ := GradCollectFun_spec sublayers objs topo.nodup_tags
    show (sublayers t).NeutralInvariant ((GradCollectFun sublayers topo.tags objs).2 t) = _
    rw [hobjs, if_pos ht]
    exact (hsub t ht).neutral (hholds t ht)

end

end Perception.MetaNN
