import Perception.Lib.StateExcept
import Perception.Lib.Wiring
import Perception.MetaNN.ComposeKernel

/-!
# The equations of a composed layer

What a forward pass of a composed layer computes, said without an order: every sublayer gets what the
connections bring it, and gives its result.
-/
namespace Perception.MetaNN

set_option autoImplicit false

open Perception.Lib.Precedence Perception.Lib.StateExcept Perception.Lib.Wiring

variable {Tag Name Layer V : Type} [DecidableEq Tag] [DecidableEq Name]

namespace VarTypeDict

variable {C : Type} {sel : C → Prop} [DecidablePred sel] {key : C → Name} {val : C → Option V} {l : List C}
  {other : VarTypeDict Name V}

/-- With one connection to a name, filling in is lookup. -/
theorem fill_overwrite {get : C → Except Fault (Option V)} (hget : ∀ c ∈ l, sel c → get c = .ok (val c))
    (hkey : l.Pairwise fun c c' => sel c → sel c' → key c ≠ key c') :
    fill overwrite sel key get l other = .ok (brought sel key val l other) := by
  induction l generalizing other with
  | nil => rfl
  | cons c rest ih =>
    obtain ⟨hfirst, hrest⟩ := List.pairwise_cons.mp hkey
    have ih := fun other => @ih other (fun c hc => hget c (List.mem_cons_of_mem _ hc)) hrest
    unfold fill
    by_cases hc : sel c
    · rw [if_pos hc, hget c List.mem_cons_self hc]
      show fill overwrite sel key get rest (other.Set (key c) (val c)) = _
      rw [ih]
      have hlater : ∀ c' ∈ rest, sel c' → key c' ≠ key c := fun c' hc' hsel => (hfirst c' hc' hc hsel).symm
      rw [brought_cons, if_pos hc, VarTypeDict.Set, brought_update hlater]
    · rw [if_neg hc, ih, brought_cons, if_neg hc]

end VarTypeDict

open VarTypeDict

section

variable (topo : ComposeTopology Tag Name Layer)

/-- What the connections bring to the inputs of a sublayer. -/
def portIn (input : VarTypeDict Name V) (res : Tag → VarTypeDict Name V) (tag : Tag) : VarTypeDict Name V :=
  brought (·.InTag = tag) InternalConnect.InName (fun c => res c.OutTag c.OutName) topo.InterConnects
    (brought (·.InLayerTag = tag) InConnect.InLayerName (fun c => input c.InName) topo.InputConnects Create)

/-- What the connections bring to the outputs. -/
def portOut (res : Tag → VarTypeDict Name V) : VarTypeDict Name V :=
  brought (fun _ => True) OutConnect.OutName (fun c => res c.OutLayerTag c.OutLayerName) topo.OutputConnects Create

variable {topo} {input : VarTypeDict Name V} {res res' : Tag → VarTypeDict Name V}

theorem portIn_congr {tag : Tag} (h : ∀ prev, Feeds topo.InterConnects prev tag → res prev = res' prev) :
    portIn topo input res tag = portIn topo input res' tag := by
  funext name
  unfold portIn brought
  cases hfind : topo.InterConnects.find? fun c => c.InTag = tag ∧ c.InName = name with
  | none => rfl
  | some c =>
    have hc := List.find?_some hfind
    have hmem := List.mem_of_find?_eq_some hfind
    simp only [decide_eq_true_eq] at hc
    simp only [h c.OutTag ⟨c, hmem, rfl, hc.1⟩]

theorem inputs_eq (tag : Tag) {internal : InternalResult Tag Name V}
    (hfed : ∀ prev, Feeds topo.InterConnects prev tag → internal prev = some (res prev)) :
    (InputFromInConnect tag input topo.InputConnects Create >>= fun input1 =>
      InputFromInternalConnect tag internal topo.InterConnects input1) = .ok (portIn topo input res tag) := by
  rw [InputFromInConnect, fill_overwrite (fun c _ _ => rfl) (topo.pairwise_input tag)]
  apply fill_overwrite
  · intro c hc hsel
    rw [InternalResult.Get, hfed c.OutTag ⟨c, hc, rfl, hsel⟩]
  · exact topo.pairwise_internal tag

theorem FillOutput_eq (tag : Tag) {output y : VarTypeDict Name V} :
    FillOutput tag y topo.OutputConnects output =
      .ok (brought (·.OutLayerTag = tag) OutConnect.OutName (fun c => y c.OutLayerName) topo.OutputConnects output) := by
  exact fill_overwrite (fun c _ _ => rfl) (topo.pairwise_output _)

/-- The results of the layers that are through. -/
def internalOf (pre : List Tag) (res : Tag → VarTypeDict Name V) : InternalResult Tag Name V :=
  fun tag => if tag ∈ pre then some (res tag) else none

variable (topo) in
/-- The outputs that the layers that are through have filled. -/
def outputOf (pre : List Tag) (res : Tag → VarTypeDict Name V) : VarTypeDict Name V :=
  brought (·.OutLayerTag ∈ pre) OutConnect.OutName (fun c => res c.OutLayerTag c.OutLayerName) topo.OutputConnects Create

omit [DecidableEq Name] in
theorem internalOf_update {l l' : List Tag} {tag : Tag} (hmem : ∀ t, t ∈ l' ↔ t ∈ l ∨ t = tag)
    (hres : ∀ t ∈ l, res' t = res t) : Function.update (internalOf l res) tag (some (res' tag)) = internalOf l' res' := by
  funext t
  by_cases ht : t = tag
  · subst ht
    simp [internalOf, hmem]
  · by_cases hl : t ∈ l
    · simp [internalOf, hmem, hl, ht, hres t hl]
    · simp [internalOf, hmem, hl, ht]

theorem outputOf_append {pre : List Tag} {tag : Tag} (hres : ∀ t ∈ pre, res' t = res t) :
    brought (·.OutLayerTag = tag) OutConnect.OutName (fun c => res' tag c.OutLayerName) topo.OutputConnects
      (outputOf topo pre res) = outputOf topo (pre ++ [tag]) res' := by
  have hsymm : Std.Symm fun c c' : OutConnect Tag Name => c.OutName ≠ c'.OutName := ⟨fun _ _ h => h.symm⟩
  funext name
  by_cases hname : ∃ c ∈ topo.OutputConnects, c.OutName = name
  · obtain ⟨c, hc, rfl⟩ := hname
    have honly : ∀ c' ∈ topo.OutputConnects, c'.OutName = c.OutName → c' = c := by
      intro c' hc' heq
      by_contra hne
      exact topo.asserts.uniqueOutput.forall hc' hc hne heq
    by_cases htag : c.OutLayerTag = tag
    · rw [brought_of_mem (topo.pairwise_output _) hc htag, outputOf, brought_of_mem (topo.pairwise_output _) hc (by simp [htag]), htag]
    · rw [brought_of_forall (fun c' hc' hsel heq => htag (by rw [← honly c' hc' heq]; exact hsel))]
      by_cases hpre : c.OutLayerTag ∈ pre
      · rw [outputOf, outputOf, brought_of_mem (topo.pairwise_output _) hc hpre, brought_of_mem (topo.pairwise_output _) hc (by simp [hpre]),
          hres _ hpre]
      · rw [outputOf, outputOf, brought_of_forall, brought_of_forall]
        · intro c' hc' hsel heq
          rw [honly c' hc' heq, List.mem_append, List.mem_singleton] at hsel
          exact hsel.elim hpre htag
        · intro c' hc' hsel heq
          rw [honly c' hc' heq] at hsel
          exact hpre hsel
  · have hnone : ∀ sel : OutConnect Tag Name → Prop, ∀ c ∈ topo.OutputConnects, sel c → c.OutName ≠ name :=
      fun _ c hc _ heq => hname ⟨c, hc, heq⟩
    rw [brought_of_forall (hnone _), outputOf, outputOf, brought_of_forall (hnone _), brought_of_forall (hnone _)]

theorem outputOf_tags : outputOf topo topo.tags res = portOut topo res := by
  apply brought_congr
  · intro c hc
    exact iff_of_true (topo.mem_tags.mpr (topo.asserts.outputTag c hc)) trivial
  · intro c hc htag
    rfl

theorem outputOf_congr {pre : List Tag} (h : ∀ t ∈ pre, res' t = res t) : outputOf topo pre res' = outputOf topo pre res := by
  apply brought_congr
  · intro c hc
    rfl
  · intro c hc hpre
    rw [h _ hpre]

variable {W S : Tag → Type} {sublayers : ∀ tag, LayerOps Name V (W tag) (S tag)} {objs objs' : ∀ tag, S tag}
  {out : VarTypeDict Name V}

/-- A step of the pass. -/
theorem FeedForwardFun_cons {pre rest : List Tag} {tag : Tag} (hsplit : topo.tags = pre ++ tag :: rest) :
    FeedForwardFun topo sublayers input (tag :: rest) (internalOf pre res) (outputOf topo pre res) objs =
      (sublayers tag).FeedForward (portIn topo input res tag) (objs tag) >>= fun r =>
        FeedForwardFun topo sublayers input rest (internalOf (pre ++ [tag]) (Function.update res tag r.1))
          (outputOf topo (pre ++ [tag]) (Function.update res tag r.1)) (Function.update objs tag r.2) := by
  have hnot : tag ∉ pre := by
    have hnodup := topo.nodup_tags
    rw [hsplit, List.nodup_append] at hnodup
    intro hmem
    exact hnodup.2.2 tag hmem tag List.mem_cons_self rfl
  have hfed : ∀ prev, Feeds topo.InterConnects prev tag → internalOf pre res prev = some (res prev) := by
    intro prev hprev
    rw [internalOf, if_pos (topo.inOrder_tags pre tag rest hsplit prev hprev)]
  have hinputs : (_ >>= fun input1 => _) = Except.ok (portIn topo input res tag) := inputs_eq tag hfed
  rw [FeedForwardFun]
  obtain ⟨input1, hinput1, hinput2⟩ := except_bind_eq_ok.mp hinputs
  rw [hinput1]
  show (InputFromInternalConnect tag (internalOf pre res) topo.InterConnects input1 >>= _) = _
  rw [hinput2]
  show ((sublayers tag).FeedForward (portIn topo input res tag) (objs tag) >>= _) = _
  congr 1
  funext ⟨y, obj⟩
  simp only [FillOutput_eq]
  have hres : ∀ t ∈ pre, Function.update res tag y t = res t := by
    intro t ht
    apply Function.update_of_ne
    rintro rfl
    exact hnot ht
  have hinternal : Function.update (internalOf pre res) tag (some (Function.update res tag y tag)) =
      internalOf (pre ++ [tag]) (Function.update res tag y) := internalOf_update (by simp) hres
  rw [← hinternal, ← outputOf_append hres, Function.update_self]
  rfl

/-- What is left of the pass solves the equations of the layers that are left. -/
theorem FeedForwardFun_iff {pre rest : List Tag} (hsplit : topo.tags = pre ++ rest) :
    FeedForwardFun topo sublayers input rest (internalOf pre res) (outputOf topo pre res) objs = .ok (out, objs') ↔
      ∃ res' : Tag → VarTypeDict Name V, (∀ t ∈ pre, res' t = res t) ∧
        (∀ t ∈ rest, (sublayers t).FeedForward (portIn topo input res' t) (objs t) = .ok (res' t, objs' t)) ∧
        (∀ t, t ∉ rest → objs' t = objs t) ∧ out = portOut topo res' := by
  induction rest generalizing pre res objs with
  | nil =>
    rw [List.append_nil] at hsplit
    subst hsplit
    rw [FeedForwardFun, outputOf_tags]
    constructor
    · intro h
      cases h
      exact ⟨res, fun _ _ => rfl, fun t ht => absurd ht List.not_mem_nil, fun _ _ => rfl, rfl⟩
    · rintro ⟨res', hres, -, hobjs, rfl⟩
      have hout : portOut topo res' = portOut topo res := by
        rw [← outputOf_tags, ← outputOf_tags]
        apply outputOf_congr
        intro t ht
        exact hres t ht
      have hsame : objs' = objs := funext fun t => hobjs t List.not_mem_nil
      rw [hout, hsame]
  | cons tag rest ih =>
    have hnodup := topo.nodup_tags
    rw [hsplit, List.nodup_append] at hnodup
    obtain ⟨htag, -⟩ := List.nodup_cons.mp hnodup.2.1
    have hnot : tag ∉ pre := fun hmem => hnodup.2.2 tag hmem tag List.mem_cons_self rfl
    have hfed : ∀ res' : Tag → VarTypeDict Name V, (∀ t ∈ pre, res' t = res t) →
        portIn topo input res' tag = portIn topo input res tag := by
      intro res' hres
      apply portIn_congr
      intro prev hprev
      exact hres prev (topo.inOrder_tags pre tag rest hsplit prev hprev)
    rw [FeedForwardFun_cons hsplit, except_bind_eq_ok]
    have hnext : topo.tags = (pre ++ [tag]) ++ rest := by
      rw [hsplit, List.append_assoc, List.singleton_append]
    constructor
    · rintro ⟨⟨y, obj⟩, hy, hrest⟩
      obtain ⟨res', hres, hlayers, hobjs, hout⟩ := (ih hnext).mp hrest
      have hpre : ∀ t ∈ pre, res' t = res t := by
        intro t ht
        rw [hres t (List.mem_append_left _ ht), Function.update_of_ne]
        rintro rfl
        exact hnot ht
      have hrestag : res' tag = y := by
        rw [hres tag (List.mem_append_right _ List.mem_cons_self), Function.update_self]
      have hobj : objs' tag = obj := by
        rw [hobjs tag htag, Function.update_self]
      refine ⟨res', hpre, ?_, ?_, hout⟩
      · intro t ht
        rcases List.mem_cons.mp ht with rfl | ht
        · rw [hfed res' hpre, hy, hrestag, hobj]
        · have hother := hlayers t ht
          rw [Function.update_of_ne (ne_of_mem_of_not_mem ht htag)] at hother
          exact hother
      · intro t ht
        obtain ⟨hne, ht⟩ := not_or.mp fun h => ht (List.mem_cons.mpr h)
        rw [hobjs t ht, Function.update_of_ne hne]
    · rintro ⟨res', hpre, hlayers, hobjs, hout⟩
      have hy := hlayers tag List.mem_cons_self
      rw [hfed res' hpre] at hy
      refine ⟨(res' tag, objs' tag), hy, (ih hnext).mpr ⟨res', ?_, ?_, ?_, hout⟩⟩
      · intro t ht
        by_cases heq : t = tag
        · rw [heq, Function.update_self]
        · rw [Function.update_of_ne heq]
          rcases List.mem_append.mp ht with ht | ht
          · exact hpre t ht
          · exact absurd (List.mem_singleton.mp ht) heq
      · intro t ht
        rw [Function.update_of_ne (ne_of_mem_of_not_mem ht htag)]
        exact hlayers t (List.mem_cons_of_mem _ ht)
      · intro t ht
        by_cases heq : t = tag
        · rw [heq, Function.update_self]
        · rw [Function.update_of_ne heq]
          exact hobjs t fun hmem => ht ((List.mem_cons.mp hmem).resolve_left heq)

/-- A forward pass gives the outputs of a solution of the equations, and every sublayer has made its step
of that solution. It does so exactly where there is one. -/
theorem FeedForward_iff (topo : ComposeTopology Tag Name Layer) (sublayers : ∀ tag, LayerOps Name V (W tag) (S tag))
    [Plus V] (p_in : VarTypeDict Name V) (objs : ∀ tag, S tag) (out : VarTypeDict Name V) (objs' : ∀ tag, S tag) :
    (ComposeKernel topo sublayers).FeedForward p_in objs = .ok (out, objs') ↔
      ∃ res : Tag → VarTypeDict Name V,
        (∀ t ∈ topo.tags, (sublayers t).FeedForward (portIn topo p_in res t) (objs t) = .ok (res t, objs' t)) ∧
        (∀ t, t ∉ topo.tags → objs' t = objs t) ∧ out = portOut topo res := by
  have houtput : outputOf topo [] (fun _ : Tag => (Create : VarTypeDict Name V)) = Create := by
    funext name
    exact brought_of_forall fun c _ hsel => absurd hsel List.not_mem_nil
  have hstart : FeedForwardFun topo sublayers p_in topo.tags (internalOf [] fun _ => Create)
      (outputOf topo [] fun _ => Create) objs = .ok (out, objs') ↔ _ :=
    FeedForwardFun_iff (List.nil_append _).symm
  rw [houtput] at hstart
  apply hstart.trans
  constructor
  · rintro ⟨res, -, h⟩
    exact ⟨res, h⟩
  · rintro ⟨res, h⟩
    exact ⟨res, fun t ht => absurd ht List.not_mem_nil, h⟩

end

end Perception.MetaNN
