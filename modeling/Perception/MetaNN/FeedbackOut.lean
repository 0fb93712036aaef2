import Perception.MetaNN.Topology

/-!
# The policies of the sublayers

A layer behind one that updates its weights or passes gradients on has to pass gradients on.
-/
namespace Perception.MetaNN

set_option autoImplicit false

open Perception.Lib.Precedence

variable {Tag Name Layer : Type} [DecidableEq Tag]

/-- A sublayer with its policy for feedback. -/
structure SublayerPolicies (Tag Layer : Type) where
  Tag : Tag
  Layer : Layer
  IsFeedbackOutput : Bool
  IsUpdate : Bool
  deriving DecidableEq

def FeedbackOutCheck (plainFBO : Bool) (insts : List (SublayerPolicies Tag Layer)) : Bool :=
  !plainFBO || insts.all SublayerPolicies.IsFeedbackOutput

/-- `ChangePolicy_<PFeedbackOutput, …>` for the sublayer with the tag. -/
def UpdateByTag (isUpdated : Bool) (tag : Tag) (res : List (SublayerPolicies Tag Layer)) :
    List (SublayerPolicies Tag Layer) → List (SublayerPolicies Tag Layer)
  | [] => if isUpdated then res else []
  | cur :: remain =>
    if isUpdated then
      UpdateByTag isUpdated tag (res ++ [if cur.Tag = tag then { cur with IsFeedbackOutput := true } else cur]) remain
    else cur :: remain

def UpdateBySourceLayer (tag : Tag) :
    List (InternalConnect Tag Name) → List (SublayerPolicies Tag Layer) → List (SublayerPolicies Tag Layer)
  | [], insts => insts
  | c :: remain, insts => UpdateBySourceLayer tag remain (UpdateByTag (tag = c.OutTag) c.InTag [] insts)

/-- What the sublayers that the tag feeds become. -/
def feedTo (inters : List (InternalConnect Tag Name)) (tag : Tag) (l : SublayerPolicies Tag Layer) :
    SublayerPolicies Tag Layer :=
  { l with IsFeedbackOutput := l.IsFeedbackOutput || inters.any fun c => c.OutTag = tag ∧ c.InTag = l.Tag }

theorem UpdateByTag_eq {tag : Tag} {isUpdated : Bool} (insts : List (SublayerPolicies Tag Layer)) :
    UpdateByTag isUpdated tag [] insts =
      insts.map fun l => { l with IsFeedbackOutput := l.IsFeedbackOutput || (isUpdated && decide (l.Tag = tag)) } := by
  have hall : ∀ res, UpdateByTag true tag res insts =
      res ++ insts.map fun l => { l with IsFeedbackOutput := l.IsFeedbackOutput || decide (l.Tag = tag) } := by
    induction insts with
    | nil => intro res; simp [UpdateByTag]
    | cons cur remain ih =>
      intro res
      rw [UpdateByTag, if_pos rfl, ih]
      by_cases htag : cur.Tag = tag <;> simp [htag]
  cases isUpdated with
  | true => simpa using hall []
  | false => cases insts <;> simp [UpdateByTag]

theorem UpdateBySourceLayer_eq {tag : Tag} (inters : List (InternalConnect Tag Name))
    (insts : List (SublayerPolicies Tag Layer)) : UpdateBySourceLayer tag inters insts = insts.map (feedTo inters tag) := by
  induction inters generalizing insts with
  | nil =>
    have hid : feedTo ([] : List (InternalConnect Tag Name)) tag = (id : SublayerPolicies Tag Layer → _) := by
      funext l
      simp [feedTo]
    rw [UpdateBySourceLayer, hid, List.map_id]
  | cons c remain ih =>
    rw [UpdateBySourceLayer, ih, UpdateByTag_eq, List.map_map]
    apply List.map_congr_left
    intro l _
    simp only [Function.comp_apply, feedTo, List.any_cons]
    congr 1
    rw [Bool.or_assoc]
    congr 2
    simp [eq_comm]

/-- A layer that updates or feeds back makes the layers behind it feed back. -/
def FeedbackOutSet (inters : List (InternalConnect Tag Name)) (processed : List (SublayerPolicies Tag Layer)) :
    List (SublayerPolicies Tag Layer) → List (SublayerPolicies Tag Layer)
  | [] => processed
  | cur :: insts =>
    FeedbackOutSet inters (processed ++ [cur])
      (if cur.IsFeedbackOutput || cur.IsUpdate then UpdateBySourceLayer cur.Tag inters insts else insts)
termination_by insts => insts.length
decreasing_by
  split <;> simp [UpdateBySourceLayer_eq]

/-- None is an assertion that fails. -/
def SublayerInstantiation (IsPlainPolicyFeedbackOut : Bool) (sublayerWithPolicy : List (SublayerPolicies Tag Layer))
    (inters : List (InternalConnect Tag Name)) : Option (List (SublayerPolicies Tag Layer)) :=
  if FeedbackOutCheck IsPlainPolicyFeedbackOut sublayerWithPolicy then
    some (if IsPlainPolicyFeedbackOut then sublayerWithPolicy else FeedbackOutSet inters [] sublayerWithPolicy)
  else none

section

variable {inters : List (InternalConnect Tag Name)} {insts later : List (SublayerPolicies Tag Layer)}

/-- What a sublayer becomes: it feeds back where its own policy says so and where one that feeds it feeds
back or updates. -/
structure Becomes (inters : List (InternalConnect Tag Name)) (all : List (SublayerPolicies Tag Layer))
    (l l' : SublayerPolicies Tag Layer) : Prop where
  tag : l'.Tag = l.Tag
  layer : l'.Layer = l.Layer
  isUpdate : l'.IsUpdate = l.IsUpdate
  isFeedbackOutput : l'.IsFeedbackOutput = true ↔ l.IsFeedbackOutput = true ∨
    ∃ a ∈ all, Feeds inters a.Tag l.Tag ∧ (a.IsFeedbackOutput = true ∨ a.IsUpdate = true)

theorem feedTo_isFeedbackOutput {tag : Tag} {l : SublayerPolicies Tag Layer} :
    (feedTo inters tag l).IsFeedbackOutput = true ↔ l.IsFeedbackOutput = true ∨ Feeds inters tag l.Tag := by
  simp [feedTo, Feeds]

variable {R : SublayerPolicies Tag Layer → SublayerPolicies Tag Layer → Prop}

omit [DecidableEq Tag] in
theorem map_tag_eq (h : List.Forall₂ R insts later) (htag : ∀ l l', R l l' → l'.Tag = l.Tag) :
    later.map SublayerPolicies.Tag = insts.map SublayerPolicies.Tag := by
  induction h with
  | nil => rfl
  | cons hl _ ih => rw [List.map_cons, List.map_cons, ih, htag _ _ hl]

omit [DecidableEq Tag] in
theorem exists_before (h : List.Forall₂ R insts later) {l' : SublayerPolicies Tag Layer} (hl' : l' ∈ later) :
    ∃ l ∈ insts, R l l' := by
  induction h with
  | nil => cases hl'
  | cons hfirst _ ih =>
    rcases List.mem_cons.mp hl' with rfl | hl'
    · exact ⟨_, List.mem_cons_self, hfirst⟩
    · obtain ⟨l, hl, hb⟩ := ih hl'
      exact ⟨l, List.mem_cons_of_mem _ hl, hb⟩

omit [DecidableEq Tag] in
theorem exists_after (h : List.Forall₂ R insts later) {l : SublayerPolicies Tag Layer} (hl : l ∈ insts) :
    ∃ l' ∈ later, R l l' := by
  induction h with
  | nil => cases hl
  | cons hfirst _ ih =>
    rcases List.mem_cons.mp hl with rfl | hl
    · exact ⟨_, List.mem_cons_self, hfirst⟩
    · obtain ⟨l', hl', hb⟩ := ih hl
      exact ⟨l', List.mem_cons_of_mem _ hl', hb⟩

theorem FeedbackOutSet_spec (processed : List (SublayerPolicies Tag Layer)) (hself : ∀ l ∈ insts, ¬Feeds inters l.Tag l.Tag)
    (hback : insts.Pairwise fun l l' => ¬Feeds inters l'.Tag l.Tag) :
    ∃ later, FeedbackOutSet inters processed insts = processed ++ later ∧
      List.Forall₂ (Becomes inters later) insts later := by
  induction processed, insts using FeedbackOutSet.induct inters with
  | case1 processed => exact ⟨[], by rw [FeedbackOutSet, List.append_nil], .nil⟩
  | case2 processed cur insts ih =>
    -- what is left after the turn, as a map
    have hturn : (if (cur.IsFeedbackOutput || cur.IsUpdate) = true then UpdateBySourceLayer cur.Tag inters insts else insts)
        = insts.map fun l => if cur.IsFeedbackOutput || cur.IsUpdate then feedTo inters cur.Tag l else l := by
      split
      · rw [UpdateBySourceLayer_eq]
      · rw [List.map_id']
    have htag : ∀ l : SublayerPolicies Tag Layer,
        (if cur.IsFeedbackOutput || cur.IsUpdate then feedTo inters cur.Tag l else l).Tag = l.Tag := by
      intro l
      split <;> rfl
    obtain ⟨hcur, hrest⟩ := List.pairwise_cons.mp hback
    rw [FeedbackOutSet]
    simp only [dite_eq_ite] at ih
    rw [hturn] at ih ⊢
    obtain ⟨later, hlater, hbecomes⟩ := ih
      (by
        intro l hl
        obtain ⟨l₀, hl₀, rfl⟩ := List.mem_map.mp hl
        rw [htag]
        exact hself l₀ (List.mem_cons_of_mem _ hl₀))
      (by
        rw [List.pairwise_map]
        simpa only [htag] using hrest)
    refine ⟨cur :: later, by rw [hlater, List.append_assoc, List.singleton_append], .cons ⟨rfl, rfl, rfl, ?_⟩ ?_⟩
    · refine ⟨.inl, ?_⟩
      rintro (hout | ⟨a, ha, hfeeds, -⟩)
      · exact hout
      · exfalso
        rcases List.mem_cons.mp ha with rfl | ha
        · exact hself a List.mem_cons_self hfeeds
        · have hmem := List.mem_map_of_mem (f := SublayerPolicies.Tag) ha
          rw [map_tag_eq hbecomes fun _ _ h => h.tag, List.map_map] at hmem
          obtain ⟨l, hl, heq⟩ := List.mem_map.mp hmem
          rw [Function.comp_apply, htag] at heq
          rw [← heq] at hfeeds
          exact hcur l hl hfeeds
    · rw [List.forall₂_map_left_iff] at hbecomes
      apply hbecomes.imp
      intro l l' h
      have htagl := h.tag
      rw [htag] at htagl
      refine ⟨htagl, ?_, ?_, ?_⟩
      · rw [h.layer]
        split <;> rfl
      · rw [h.isUpdate]
        split <;> rfl
      · rw [h.isFeedbackOutput, htag]
        simp only [List.mem_cons, exists_eq_or_imp]
        by_cases hmark : cur.IsFeedbackOutput = true ∨ cur.IsUpdate = true
        · rw [if_pos (by simpa using hmark), feedTo_isFeedbackOutput, or_assoc]
          simp only [hmark, and_true]
        · rw [if_neg (by simpa using hmark)]
          simp only [hmark, and_false, false_or]

/-- The sublayer with its policy feeds back or updates. -/
def Marks (l : SublayerPolicies Tag Layer) : Prop := l.IsFeedbackOutput = true ∨ l.IsUpdate = true

omit [DecidableEq Tag] in
theorem path_of_becomes (horder : InOrder (Feeds inters) (insts.map SublayerPolicies.Tag))
    (h : List.Forall₂ (Becomes inters later) insts later) {l l' : SublayerPolicies Tag Layer} (hl : l ∈ insts)
    (hb : Becomes inters later l l') (hout : l'.IsFeedbackOutput = true) :
    l.IsFeedbackOutput = true ∨ ∃ a ∈ insts, Relation.TransGen (Feeds inters) a.Tag l.Tag ∧ Marks a := by
  let P : Tag → Prop := fun t => ∀ l l', l ∈ insts → Becomes inters later l l' → l.Tag = t → l'.IsFeedbackOutput = true →
    l.IsFeedbackOutput = true ∨ ∃ a ∈ insts, Relation.TransGen (Feeds inters) a.Tag l.Tag ∧ Marks a
  refine horder.induction (P := P) ?_ l.Tag (List.mem_map_of_mem hl) l l' hl hb rfl hout
  rintro t - ih l l' hl hb rfl hout
  rcases hb.isFeedbackOutput.mp hout with hown | ⟨a', ha', hfeeds, hmarks⟩
  · exact .inl hown
  · obtain ⟨a, ha, hba⟩ := exists_before h ha'
    right
    rcases hmarks with hfbo | hupd
    · rcases ih a'.Tag hfeeds a a' ha hba hba.tag.symm hfbo with hown | ⟨b, hb, hpath, hmarks⟩
      · rw [hba.tag] at hfeeds
        exact ⟨a, ha, .single hfeeds, .inl hown⟩
      · rw [hba.tag] at hfeeds
        exact ⟨b, hb, hpath.tail hfeeds, hmarks⟩
    · rw [hba.tag] at hfeeds
      rw [hba.isUpdate] at hupd
      exact ⟨a, ha, .single hfeeds, .inr hupd⟩

omit [DecidableEq Tag] in
theorem becomes_of_path (hin : ∀ c ∈ inters, c.OutTag ∈ insts.map SublayerPolicies.Tag)
    (h : List.Forall₂ (Becomes inters later) insts later) {a : SublayerPolicies Tag Layer} (ha : a ∈ insts) (hmarks : Marks a)
    {t : Tag} (hpath : Relation.TransGen (Feeds inters) a.Tag t) {l l' : SublayerPolicies Tag Layer}
    (hb : Becomes inters later l l') (htag : l.Tag = t) : l'.IsFeedbackOutput = true := by
  induction hpath generalizing l l' with
  | single hfeeds =>
    obtain ⟨a', ha', hba⟩ := exists_after h ha
    apply hb.isFeedbackOutput.mpr
    refine .inr ⟨a', ha', by rw [hba.tag, htag]; exact hfeeds, ?_⟩
    rcases hmarks with hfbo | hupd
    · exact .inl (hba.isFeedbackOutput.mpr (.inl hfbo))
    · exact .inr (by rw [hba.isUpdate]; exact hupd)
  | tail _ hfeeds ih =>
    have hprev := hin _ hfeeds.choose_spec.1
    rw [hfeeds.choose_spec.2.1] at hprev
    obtain ⟨b, hb₀, rfl⟩ := List.mem_map.mp hprev
    obtain ⟨b', hb', hbb⟩ := exists_after h hb₀
    apply hb.isFeedbackOutput.mpr
    exact .inr ⟨b', hb', by rw [hbb.tag, htag]; exact hfeeds, .inl (ih hbb rfl)⟩

/-- The sublayers that feed back are those whose policy says so and those behind, over any path of
connections, one whose policy is to feed back or to update. The rest of the policies is as it was. -/
theorem SublayerInstantiation_spec (topo : ComposeTopology Tag Name Layer) (plainFBO : Bool)
    (insts res : List (SublayerPolicies Tag Layer)) (htags : insts.map SublayerPolicies.Tag = topo.tags)
    (hres : SublayerInstantiation plainFBO insts topo.InterConnects = some res) :
    List.Forall₂ (fun l l' => l'.Tag = l.Tag ∧ l'.Layer = l.Layer ∧ l'.IsUpdate = l.IsUpdate ∧
      (l'.IsFeedbackOutput = true ↔ l.IsFeedbackOutput = true ∨
        ∃ a ∈ insts, Relation.TransGen (Feeds topo.InterConnects) a.Tag l.Tag ∧ Marks a)) insts res := by
  unfold SublayerInstantiation at hres
  split at hres
  · next hcheck =>
    obtain rfl := Option.some.inj hres
    cases plainFBO with
    | true =>
      have hall : ∀ l ∈ insts, l.IsFeedbackOutput = true := by simpa [FeedbackOutCheck] using hcheck
      rw [if_pos rfl]
      apply List.forall₂_same.mpr
      intro l hl
      exact ⟨rfl, rfl, rfl, by simp [hall l hl]⟩
    | false =>
      have horder := topo.inOrder_tags
      obtain ⟨hself, hback⟩ := horder.pairwise_not topo.nodup_tags
      rw [← htags] at hself hback horder
      obtain ⟨later, hlater, hbecomes⟩ := FeedbackOutSet_spec []
        (fun l hl => hself l.Tag (List.mem_map_of_mem hl)) (List.pairwise_map.mp hback)
      have hin : ∀ c ∈ topo.InterConnects, c.OutTag ∈ insts.map SublayerPolicies.Tag := by
        intro c hc
        rw [htags]
        exact topo.mem_tags.mpr (topo.asserts.internalTag c hc).1
      rw [List.nil_append] at hlater
      rw [if_neg Bool.false_ne_true, hlater]
      have hpairs : ∀ l l', l ∈ insts → Becomes topo.InterConnects later l l' → l'.Tag = l.Tag ∧ l'.Layer = l.Layer ∧
          l'.IsUpdate = l.IsUpdate ∧ (l'.IsFeedbackOutput = true ↔ l.IsFeedbackOutput = true ∨
            ∃ a ∈ insts, Relation.TransGen (Feeds topo.InterConnects) a.Tag l.Tag ∧ Marks a) := by
        intro l l' hl hb
        refine ⟨hb.tag, hb.layer, hb.isUpdate, path_of_becomes horder hbecomes hl hb, ?_⟩
        rintro (hown | ⟨a, ha, hpath, hmarks⟩)
        · exact hb.isFeedbackOutput.mpr (.inl hown)
        · exact becomes_of_path hin hbecomes ha hmarks hpath hb rfl
      have hboth := (List.forall₂_and_left insts later).mpr ⟨fun _ hl => hl, hbecomes⟩
      exact hboth.imp fun l l' h => hpairs l l' h.1 h.2
  · cases hres

end

end Perception.MetaNN
