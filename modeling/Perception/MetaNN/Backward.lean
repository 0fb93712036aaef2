import Mathlib.Data.Real.Basic
import Mathlib.Tactic.Linarith
import Mathlib.Tactic.Ring
import Perception.MetaNN.Equations

/-!
# Gradients in a composed layer

What a backward pass of a composed layer hands to every sublayer and gives to the inputs.
-/
namespace Perception.MetaNN

set_option autoImplicit false

open Perception.Lib.Precedence Perception.Lib.StateExcept Perception.Lib.Wiring

/-- Values that can move: what a gradient is on a velocity, and which curves have a velocity at 0. -/
class Moving (V : Type) (D : outParam Type) [Plus V] [Zero D] where
  pair : V → D → ℝ
  HasVelocity : (ℝ → V) → D → Prop
  pair_still (g : V) : pair g 0 = 0
  pair_plus {a b c : V} (d : D) : Plus.plus a b = some c → pair c d = pair a d + pair b d
  hasVelocity_still (v : V) : HasVelocity (fun _ => v) 0

variable {Tag Name Layer V D : Type} [DecidableEq Tag] [DecidableEq Name] [Fintype Name] [Plus V] [Zero D] [Moving V D]

/-- A record of gradients on a record of velocities. -/
noncomputable def gradOn (grad : VarTypeDict Name V) (d : Name → D) : ℝ := pairing Moving.pair grad d

/-- A gradient that may be missing on a velocity. -/
noncomputable def entryOn (grad : Option V) (d : D) : ℝ := pairAt Moving.pair grad d

omit [DecidableEq Name] in
theorem gradOn_create (d : Name → D) : gradOn (VarTypeDict.Create : VarTypeDict Name V) d = 0 :=
  Finset.sum_eq_zero fun _ _ => rfl

section

omit [DecidableEq Name] [Fintype Name]

theorem accumulate_spec {ori tmp cur : Option V} (h : accumulate ori tmp = .ok cur) (d : D) :
    entryOn cur d = entryOn ori d + entryOn tmp d := by
  cases ori with
  | none =>
    obtain rfl := Except.ok.inj h
    exact (zero_add _).symm
  | some a =>
    cases tmp with
    | none => cases h
    | some b =>
      unfold accumulate at h
      cases hplus : Plus.plus a b with
      | none =>
        simp only [hplus] at h
        cases h
      | some c =>
        simp only [hplus] at h
        obtain rfl := Except.ok.inj h
        exact Moving.pair_plus d hplus

omit [Zero D] [Moving V D] in
/-- A sum that is not built is no exception. -/
theorem accumulate_ne_throw {ori tmp : Option V} {what : String} : accumulate ori tmp ≠ .error (.runtime_error what) := by
  unfold accumulate
  intro h
  split at h
  · cases h
  · split at h <;> cases h
  · cases h

end

/-- Adding up along connections adds up what the parts are on a velocity. -/
theorem gradOn_fill {C : Type} {sel : C → Prop} [DecidablePred sel] {key : C → Name} {get : C → Except Fault (Option V)}
    {val : C → Option V} {l : List C} {start res : VarTypeDict Name V} (hget : ∀ c ∈ l, sel c → ∀ v, get c = .ok v → v = val c)
    (h : VarTypeDict.fill accumulate sel key get l start = .ok res) (d : Name → D) :
    gradOn res d = gradOn start d + wireSum sel (fun c => entryOn (val c) (d (key c))) l := by
  induction l generalizing start with
  | nil =>
    obtain rfl := Except.ok.inj h
    simp [wireSum]
  | cons c rest ih =>
    have ih := fun start => @ih start fun c hc => hget c (List.mem_cons_of_mem _ hc)
    rw [VarTypeDict.fill] at h
    rw [wireSum_cons]
    split at h
    · next hc =>
      obtain ⟨tmp, htmp, h⟩ := except_bind_eq_ok.mp h
      obtain ⟨cur, hcur, h⟩ := except_bind_eq_ok.mp h
      rw [if_pos hc, ih _ h, ← hget c List.mem_cons_self hc tmp htmp]
      have hset : gradOn (start.Set (key c) cur) d + entryOn (start (key c)) (d (key c)) =
          entryOn cur (d (key c)) + gradOn start d := pairing_update_left start d (key c) cur
      rw [accumulate_spec hcur] at hset
      linarith
    · next hc => rw [if_neg hc, ih _ h, zero_add]

variable (topo : ComposeTopology Tag Name Layer)

/-- What reaches the outputs of a sublayer, on a velocity. -/
noncomputable def reaching (grad : VarTypeDict Name V) (gin : Tag → VarTypeDict Name V) (tag : Tag) (d : Name → D) : ℝ :=
  wireSum (·.OutLayerTag = tag) (fun c => entryOn (grad c.OutName) (d c.OutLayerName)) topo.OutputConnects +
    wireSum (·.OutTag = tag) (fun c => entryOn (gin c.InTag c.InName) (d c.OutName)) topo.InterConnects

/-- What a sublayer gives to the inputs, on a velocity. -/
noncomputable def leaving (gin : Tag → VarTypeDict Name V) (d : Name → D) (tag : Tag) : ℝ :=
  wireSum (·.InLayerTag = tag) (fun c => entryOn (gin tag c.InLayerName) (d c.InName)) topo.InputConnects

variable {topo} {grad : VarTypeDict Name V}

theorem outputs_spec {post : List Tag} {gin : Tag → VarTypeDict Name V} {tag : Tag} {grad1 grad2 : VarTypeDict Name V}
    (h1 : CreateGradFromOutside tag grad topo.OutputConnects VarTypeDict.Create = .ok grad1)
    (h2 : CreateGradFromInternal tag (internalOf post gin) topo.InterConnects grad1 = .ok grad2) (d : Name → D) :
    gradOn grad2 d = reaching topo grad gin tag d := by
  have hget : ∀ c ∈ topo.InterConnects, c.OutTag = tag → ∀ v, (internalOf post gin).Get c.InTag c.InName = .ok v →
      v = gin c.InTag c.InName := by
    intro c _ _ v hv
    unfold InternalResult.Get internalOf at hv
    by_cases hpost : c.InTag ∈ post
    · rw [if_pos hpost] at hv
      exact (Except.ok.inj hv).symm
    · rw [if_neg hpost] at hv
      cases hv
  rw [gradOn_fill hget h2, gradOn_fill (fun c _ _ v hv => (Except.ok.inj hv).symm) h1, gradOn_create, zero_add]
  rfl

omit [DecidableEq Name] [Fintype Name] in
theorem reaching_congr {gin gin' : Tag → VarTypeDict Name V} {tag : Tag}
    (h : ∀ next, Feeds topo.InterConnects tag next → gin next = gin' next) (d : Name → D) :
    reaching topo grad gin tag d = reaching topo grad gin' tag d := by
  unfold reaching
  congr 1
  apply wireSum_congr
  intro c hc hout
  rw [h c.InTag ⟨c, hc, hout, rfl⟩]

variable {W S : Tag → Type} {sublayers : ∀ tag, LayerOps Name V (W tag) (S tag)}

/-- What is left of the pass: every sublayer that is left gets what reaches it. -/
theorem FeedBackwardFun_spec {pre post : List Tag} {gin : Tag → VarTypeDict Name V} {res out : VarTypeDict Name V}
    {objs objs' : ∀ tag, S tag} (hsplit : topo.tags = pre ++ post)
    (h : FeedBackwardFun topo sublayers grad pre.reverse (internalOf post gin) res objs = .ok (out, objs')) :
    ∃ gin' : Tag → VarTypeDict Name V, (∀ t ∈ post, gin' t = gin t) ∧
      (∀ t ∈ pre, ∃ g, (sublayers t).FeedBackward g (objs t) = .ok (gin' t, objs' t) ∧
        ∀ d : Name → D, gradOn g d = reaching topo grad gin' t d) ∧
      (∀ t, t ∉ pre → objs' t = objs t) ∧
      ∀ d : Name → D, gradOn out d = gradOn res d + (pre.map (leaving topo gin' d)).sum := by
  induction pre using List.reverseRecOn generalizing post gin res objs with
  | nil =>
    obtain ⟨rfl, rfl⟩ := Prod.mk.inj (Except.ok.inj h)
    exact ⟨gin, fun _ _ => rfl, fun t ht => absurd ht List.not_mem_nil, fun _ _ => rfl, fun d => by simp⟩
  | append_singleton pre tag ih =>
    rw [List.reverse_append, List.reverse_singleton, List.singleton_append, FeedBackwardFun] at h
    obtain ⟨grad1, h1, h⟩ := except_bind_eq_ok.mp h
    obtain ⟨grad2, h2, h⟩ := except_bind_eq_ok.mp h
    obtain ⟨⟨curLayerRes, obj⟩, hlayer, h⟩ := except_bind_eq_ok.mp h
    obtain ⟨new_res, hfill, h⟩ := except_bind_eq_ok.mp h
    have hnodup := topo.nodup_tags
    rw [hsplit] at hnodup
    obtain ⟨hpre, -, hdisj⟩ := List.nodup_append.mp hnodup
    obtain ⟨-, -, hnot⟩ := List.nodup_append.mp hpre
    have htagpre : tag ∉ pre := fun hmem => hnot tag hmem tag List.mem_cons_self rfl
    have htagpost : tag ∉ post := fun hmem =>
      hdisj tag (List.mem_append_right _ List.mem_cons_self) tag hmem rfl
    have hnext : topo.tags = pre ++ tag :: post := by rw [hsplit, List.append_assoc, List.singleton_append]
    have hpost : ∀ t ∈ post, Function.update gin tag curLayerRes t = gin t := fun t ht =>
      Function.update_of_ne (ne_of_mem_of_not_mem ht htagpost) _ _
    have hinternal : Function.update (internalOf post gin) tag (some (Function.update gin tag curLayerRes tag)) =
        internalOf (tag :: post) (Function.update gin tag curLayerRes) := internalOf_update (by simp [or_comm]) hpost
    rw [Function.update_self] at hinternal
    rw [hinternal] at h
    obtain ⟨gin', hgin, hlayers, hobjs, hout⟩ := ih hnext h
    have hcur : gin' tag = curLayerRes := by rw [hgin tag List.mem_cons_self, Function.update_self]
    have hrest : ∀ t ∈ post, gin' t = gin t := by
      intro t ht
      rw [hgin t (List.mem_cons_of_mem _ ht), hpost t ht]
    refine ⟨gin', hrest, ?_, ?_, ?_⟩
    · intro t ht
      rcases List.mem_append.mp ht with ht | ht
      · have hother := hlayers t ht
        rw [Function.update_of_ne (ne_of_mem_of_not_mem ht htagpre)] at hother
        exact hother
      · rw [List.mem_singleton] at ht
        subst ht
        refine ⟨grad2, ?_, fun d => ?_⟩
        · rw [hlayer, hcur, hobjs t htagpre, Function.update_self]
        · rw [outputs_spec h1 h2]
          apply reaching_congr
          intro next hfeeds
          apply (hrest next _).symm
          have horder := topo.inOrder_tags
          have hall := topo.nodup_tags
          have hmem : next ∈ topo.tags := by
            obtain ⟨c, hc, -, rfl⟩ := hfeeds
            exact topo.mem_tags.mpr (topo.asserts.internalTag c hc).2
          rw [hnext] at horder hall hmem
          exact horder.mem_behind hall hfeeds hmem
    · intro t ht
      obtain ⟨ht, hne⟩ := not_or.mp fun h => ht (List.mem_append.mpr h)
      rw [hobjs t ht, Function.update_of_ne (fun heq => hne (List.mem_singleton.mpr heq))]
    · intro d
      have hleft := gradOn_fill (fun c _ _ v hv => (Except.ok.inj hv).symm) hfill d
      rw [hout, hleft, List.map_append, List.sum_append, List.map_singleton, List.sum_singleton, ← hcur]
      unfold leaving
      ring

end Perception.MetaNN
