import Mathlib.Data.List.Perm.Basic
import Perception.Lib.Precedence

/-!
# The topology of a composed layer

What the compiler computes from the parameters of `ComposeTopology`. A `static_assert` that fails is
none.
-/
namespace Perception.MetaNN

set_option autoImplicit false

open Perception.Lib.Precedence

variable {Tag Name Layer : Type}

structure SubLayer (Tag Layer : Type) where
  Tag : Tag
  Layer : Layer
  deriving DecidableEq

structure InternalConnect (Tag Name : Type) where
  OutTag : Tag
  OutName : Name
  InTag : Tag
  InName : Name
  deriving DecidableEq

structure InConnect (Tag Name : Type) where
  InName : Name
  InLayerTag : Tag
  InLayerName : Name
  deriving DecidableEq

structure OutConnect (Tag Name : Type) where
  OutLayerTag : Tag
  OutLayerName : Name
  OutName : Name
  deriving DecidableEq

section

variable [DecidableEq Tag]

/-- A connection leads to the layer. -/
abbrev TagInInternalIn (tag : Tag) (inters : List (InternalConnect Tag Name)) : Prop :=
  tag ∈ inters.map InternalConnect.InTag

abbrev TagInInternalOut (tag : Tag) (inters : List (InternalConnect Tag Name)) : Prop :=
  tag ∈ inters.map InternalConnect.OutTag

/-- The layer is at an end of a connection. -/
def TagExistInLayerComps (tag : Tag) (inters : List (InternalConnect Tag Name)) : Prop :=
  TagInInternalOut tag inters ∨ TagInInternalIn tag inters

instance (tag : Tag) (inters : List (InternalConnect Tag Name)) : Decidable (TagExistInLayerComps tag inters) := by
  unfold TagExistInLayerComps
  infer_instance

/-- The connections that stay, and the layers in front of the others. -/
def InternalLayerPrune (check : List (InternalConnect Tag Name)) :
    List (InternalConnect Tag Name) → List Tag → List (InternalConnect Tag Name) →
      List (InternalConnect Tag Name) × List Tag
  | remain, tags, [] => (remain, tags)
  | remain, tags, cur :: rest =>
    if TagInInternalIn cur.OutTag check then InternalLayerPrune check (remain ++ [cur]) tags rest
    else InternalLayerPrune check remain (if cur.OutTag ∈ tags then tags else tags ++ [cur.OutTag]) rest

def SeparateByPostTag (postTags : List Tag) :
    List (SubLayer Tag Layer) → List (SubLayer Tag Layer) → List (SubLayer Tag Layer) →
      List (SubLayer Tag Layer) × List (SubLayer Tag Layer)
  | [], ordered, unordered => (ordered, unordered)
  | cur :: rest, ordered, unordered =>
    if cur.Tag ∈ postTags then SeparateByPostTag postTags rest (ordered ++ [cur]) unordered
    else SeparateByPostTag postTags rest ordered (unordered ++ [cur])

def CascadSublayers : List (SubLayer Tag Layer) → List (SubLayer Tag Layer) → List (SubLayer Tag Layer)
  | head, [] => head
  | head, cur :: tail => CascadSublayers (head ++ [cur]) tail

/-- Layers that no connection leads to are put in order, round by round. A round that takes no
connection away is a cycle. -/
def MainLoop (ordered unordered : List (SubLayer Tag Layer)) :
    List (InternalConnect Tag Name) → Option (List (SubLayer Tag Layer) × List (SubLayer Tag Layer))
  | [] => some (ordered, unordered)
  | cur :: rest =>
    if (InternalLayerPrune (cur :: rest) [] [] (cur :: rest)).1.length < (cur :: rest).length then
      MainLoop
        (SeparateByPostTag (InternalLayerPrune (cur :: rest) [] [] (cur :: rest)).2 unordered ordered []).1
        (SeparateByPostTag (InternalLayerPrune (cur :: rest) [] [] (cur :: rest)).2 unordered ordered []).2
        (InternalLayerPrune (cur :: rest) [] [] (cur :: rest)).1
    else none
termination_by inters => inters.length
decreasing_by assumption

/-- Layers without a connection come first. -/
def SublayerPreprocess_ (inters : List (InternalConnect Tag Name)) :
    List (SubLayer Tag Layer) → List (SubLayer Tag Layer) → List (SubLayer Tag Layer) →
      List (SubLayer Tag Layer) × List (SubLayer Tag Layer)
  | ordered, unordered, [] => (ordered, unordered)
  | ordered, unordered, cur :: rest =>
    if TagExistInLayerComps cur.Tag inters then
      SublayerPreprocess_ inters ordered (unordered ++ [cur]) rest
    else SublayerPreprocess_ inters (ordered ++ [cur]) unordered rest

def TopologicalOrdering_ (subLayers : List (SubLayer Tag Layer)) (inters : List (InternalConnect Tag Name)) :
    Option (List (SubLayer Tag Layer)) :=
  let pre := SublayerPreprocess_ inters [] [] subLayers
  (MainLoop pre.1 pre.2 inters).map fun main => CascadSublayers main.1 main.2

end

variable [DecidableEq Tag]

/-- A parameter of `ComposeTopology`. -/
inductive ComposeKernelInfo (Tag Name Layer : Type) where
  | subLayer (l : SubLayer Tag Layer)
  | internalConnect (c : InternalConnect Tag Name)
  | inConnect (c : InConnect Tag Name)
  | outConnect (c : OutConnect Tag Name)

structure SeparateRes (Tag Name Layer : Type) where
  SubLayers : List (SubLayer Tag Layer)
  InterConnects : List (InternalConnect Tag Name)
  InputConnects : List (InConnect Tag Name)
  OutputConnects : List (OutConnect Tag Name)

def SeparateParameters_ (res : SeparateRes Tag Name Layer) :
    List (ComposeKernelInfo Tag Name Layer) → SeparateRes Tag Name Layer
  | [] => res
  | .subLayer l :: rest => SeparateParameters_ { res with SubLayers := res.SubLayers ++ [l] } rest
  | .internalConnect c :: rest => SeparateParameters_ { res with InterConnects := res.InterConnects ++ [c] } rest
  | .inConnect c :: rest => SeparateParameters_ { res with InputConnects := res.InputConnects ++ [c] } rest
  | .outConnect c :: rest => SeparateParameters_ { res with OutputConnects := res.OutputConnects ++ [c] } rest

/-- No two sublayers have the same tag. -/
abbrev SublayerCheck (subLayers : List (SubLayer Tag Layer)) : Prop := subLayers.Pairwise fun l l' => l.Tag ≠ l'.Tag

abbrev NoCycleCheck (inters : List (InternalConnect Tag Name)) : Prop := ∀ c ∈ inters, c.InTag ≠ c.OutTag

/-- No input of a sublayer comes from two sublayers. -/
abbrev UniqueSourceCheck (inters : List (InternalConnect Tag Name)) : Prop :=
  inters.Pairwise fun c c' => c.InTag ≠ c'.InTag ∨ c.InName ≠ c'.InName

abbrev InputConnectCheck (ins : List (InConnect Tag Name)) : Prop :=
  ins.Pairwise fun c c' => c.InLayerTag ≠ c'.InLayerTag ∨ c.InLayerName ≠ c'.InLayerName

abbrev OutputConnectCheck (outs : List (OutConnect Tag Name)) : Prop := outs.Pairwise fun c c' => c.OutName ≠ c'.OutName

/-- Both ends of every connection are sublayers. -/
abbrev InternalTagInSublayer (inters : List (InternalConnect Tag Name)) (subLayers : List (SubLayer Tag Layer)) : Prop :=
  ∀ c ∈ inters, c.OutTag ∈ subLayers.map SubLayer.Tag ∧ c.InTag ∈ subLayers.map SubLayer.Tag

abbrev InputTagInSubLayer (ins : List (InConnect Tag Name)) (subLayers : List (SubLayer Tag Layer)) : Prop :=
  ∀ c ∈ ins, c.InLayerTag ∈ subLayers.map SubLayer.Tag

abbrev OutputTagInSubLayer (outs : List (OutConnect Tag Name)) (subLayers : List (SubLayer Tag Layer)) : Prop :=
  ∀ c ∈ outs, c.OutLayerTag ∈ subLayers.map SubLayer.Tag

abbrev SublayerTagInOtherArrays (topo : SeparateRes Tag Name Layer) : Prop :=
  ∀ l ∈ topo.SubLayers, TagExistInLayerComps l.Tag topo.InterConnects ∨
    l.Tag ∈ topo.InputConnects.map InConnect.InLayerTag ∨ l.Tag ∈ topo.OutputConnects.map OutConnect.OutLayerTag

abbrev UsefulInternalPostLayer (inters : List (InternalConnect Tag Name)) (outs : List (OutConnect Tag Name)) : Prop :=
  ∀ c ∈ inters, TagInInternalOut c.InTag inters ∨ c.InTag ∈ outs.map OutConnect.OutLayerTag

abbrev UsefulInputLayer (ins : List (InConnect Tag Name)) (inters : List (InternalConnect Tag Name))
    (outs : List (OutConnect Tag Name)) : Prop :=
  ∀ c ∈ ins, TagInInternalOut c.InLayerTag inters ∨ c.InLayerTag ∈ outs.map OutConnect.OutLayerTag

/-- The assertions of `ComposeTopology`. That both kinds of connections lead to one input is not among them. -/
structure Asserts (topo : SeparateRes Tag Name Layer) : Prop where
  sublayers : topo.SubLayers ≠ []
  isUnique : SublayerCheck topo.SubLayers
  noSelfCycle : NoCycleCheck topo.InterConnects
  uniqueInternal : UniqueSourceCheck topo.InterConnects
  uniqueInput : InputConnectCheck topo.InputConnects
  uniqueOutput : OutputConnectCheck topo.OutputConnects
  internalTag : InternalTagInSublayer topo.InterConnects topo.SubLayers
  inputTag : InputTagInSubLayer topo.InputConnects topo.SubLayers
  outputTag : OutputTagInSubLayer topo.OutputConnects topo.SubLayers
  otherArrays : SublayerTagInOtherArrays topo
  usefulInternal : UsefulInternalPostLayer topo.InterConnects topo.OutputConnects
  usefulInput : UsefulInputLayer topo.InputConnects topo.InterConnects topo.OutputConnects

/-- A topology that compiles, with its order. -/
structure ComposeTopology (Tag Name Layer : Type) [DecidableEq Tag] extends SeparateRes Tag Name Layer where
  asserts : Asserts toSeparateRes
  TopologicalOrdering : List (SubLayer Tag Layer)
  ordering : TopologicalOrdering_ SubLayers InterConnects = some TopologicalOrdering

/-- The first layer feeds the second. -/
def Feeds (inters : List (InternalConnect Tag Name)) (a b : Tag) : Prop := ∃ c ∈ inters, c.OutTag = a ∧ c.InTag = b

section

variable {check remain inters : List (InternalConnect Tag Name)} {tags postTags : List Tag}
  {subLayers ordered unordered order : List (SubLayer Tag Layer)}

theorem InternalLayerPrune_fst (l : List (InternalConnect Tag Name)) :
    (InternalLayerPrune check remain tags l).1 = remain ++ l.filter fun c => TagInInternalIn c.OutTag check := by
  induction l generalizing remain tags with
  | nil => exact (List.append_nil remain).symm
  | cons cur rest ih =>
    unfold InternalLayerPrune
    split
    · next hin => rw [ih, List.filter_cons_of_pos (by simpa using hin), List.append_assoc, List.singleton_append]
    · next hin => rw [ih, List.filter_cons_of_neg (by simpa using hin)]

theorem mem_InternalLayerPrune_snd (l : List (InternalConnect Tag Name)) {t : Tag} :
    t ∈ (InternalLayerPrune check remain tags l).2 ↔
      t ∈ tags ∨ ∃ c ∈ l, c.OutTag = t ∧ ¬TagInInternalIn t check := by
  induction l generalizing remain tags with
  | nil => simp [InternalLayerPrune]
  | cons cur rest ih =>
    unfold InternalLayerPrune
    split
    · next hin =>
      rw [ih]
      constructor
      · rintro (ht | ⟨c, hc, hout, hnot⟩)
        · exact .inl ht
        · exact .inr ⟨c, List.mem_cons_of_mem _ hc, hout, hnot⟩
      · rintro (ht | ⟨c, hc, hout, hnot⟩)
        · exact .inl ht
        · rcases List.mem_cons.mp hc with rfl | hc
          · rw [hout] at hin
            exact absurd hin hnot
          · exact .inr ⟨c, hc, hout, hnot⟩
    · next hin =>
      have htags : t ∈ (if cur.OutTag ∈ tags then tags else tags ++ [cur.OutTag]) ↔ t ∈ tags ∨ t = cur.OutTag := by
        split
        · next hmem =>
          constructor
          · exact .inl
          · rintro (ht | rfl)
            · exact ht
            · exact hmem
        · rw [List.mem_append, List.mem_singleton]
      rw [ih, htags]
      constructor
      · rintro ((ht | rfl) | ⟨c, hc, hout, hnot⟩)
        · exact .inl ht
        · exact .inr ⟨cur, List.mem_cons_self, rfl, hin⟩
        · exact .inr ⟨c, List.mem_cons_of_mem _ hc, hout, hnot⟩
      · rintro (ht | ⟨c, hc, hout, hnot⟩)
        · exact .inl (.inl ht)
        · rcases List.mem_cons.mp hc with rfl | hc
          · exact .inl (.inr hout.symm)
          · exact .inr ⟨c, hc, hout, hnot⟩

theorem SeparateByPostTag_eq (input : List (SubLayer Tag Layer)) :
    SeparateByPostTag postTags input ordered unordered =
      (ordered ++ input.filter (·.Tag ∈ postTags), unordered ++ input.filter (·.Tag ∉ postTags)) := by
  induction input generalizing ordered unordered with
  | nil => rw [SeparateByPostTag, List.filter_nil, List.filter_nil, List.append_nil, List.append_nil]
  | cons cur rest ih =>
    unfold SeparateByPostTag
    split
    · next hmem => simp [ih, hmem]
    · next hmem => simp [ih, hmem]

theorem SublayerPreprocess_eq (input : List (SubLayer Tag Layer)) :
    SublayerPreprocess_ inters ordered unordered input =
      (ordered ++ input.filter (fun l => ¬TagExistInLayerComps l.Tag inters),
        unordered ++ input.filter (fun l => TagExistInLayerComps l.Tag inters)) := by
  induction input generalizing ordered unordered with
  | nil => rw [SublayerPreprocess_, List.filter_nil, List.filter_nil, List.append_nil, List.append_nil]
  | cons cur rest ih =>
    unfold SublayerPreprocess_
    split
    · next hmem => simp [ih, hmem]
    · next hmem => simp [ih, hmem]

omit [DecidableEq Tag] in
theorem CascadSublayers_eq (head tail : List (SubLayer Tag Layer)) : CascadSublayers head tail = head ++ tail := by
  induction tail generalizing head with
  | nil => exact (List.append_nil head).symm
  | cons cur tail ih => rw [CascadSublayers, ih, List.append_assoc, List.singleton_append]

/-- Where a round leaves a connection, that round has put neither of its ends in order. -/
theorem mem_InternalLayerPrune_fst {c : InternalConnect Tag Name} :
    c ∈ (InternalLayerPrune inters [] [] inters).1 ↔ c ∈ inters ∧ TagInInternalIn c.OutTag inters := by
  rw [InternalLayerPrune_fst, List.nil_append, List.mem_filter, decide_eq_true_iff]

theorem mem_InternalLayerPrune_tags {t : Tag} :
    t ∈ (InternalLayerPrune inters [] [] inters).2 ↔ TagInInternalOut t inters ∧ ¬TagInInternalIn t inters := by
  rw [mem_InternalLayerPrune_snd]
  constructor
  · rintro (ht | ⟨c, hc, rfl, hnot⟩)
    · cases ht
    · exact ⟨List.mem_map_of_mem hc, hnot⟩
  · intro h
    obtain ⟨c, hc, rfl⟩ := List.mem_map.mp h.1
    exact .inr ⟨c, hc, rfl, h.2⟩

/-- What holds between the rounds: every layer is in one of the two lists, the first is in order, and
what a connection that is gone comes from is in the first. -/
structure Rounds (all inters : List (InternalConnect Tag Name)) (subLayers ordered unordered : List (SubLayer Tag Layer)) :
    Prop where
  perm : (ordered ++ unordered).Perm subLayers
  inOrder : InOrder (Feeds all) (ordered.map SubLayer.Tag)
  gone : ∀ c ∈ all, c ∈ inters ∨ c.OutTag ∈ ordered.map SubLayer.Tag

theorem Rounds.next {all : List (InternalConnect Tag Name)} (h : Rounds all inters subLayers ordered unordered)
    (hin : InternalTagInSublayer all subLayers) :
    Rounds all (InternalLayerPrune inters [] [] inters).1 subLayers
      (SeparateByPostTag (InternalLayerPrune inters [] [] inters).2 unordered ordered []).1
      (SeparateByPostTag (InternalLayerPrune inters [] [] inters).2 unordered ordered []).2 := by
  rw [SeparateByPostTag_eq, List.nil_append]
  refine ⟨?_, ?_, ?_⟩
  · rw [List.append_assoc]
    refine List.Perm.trans ?_ h.perm
    apply List.Perm.append_left
    have hsplit := List.filter_append_perm (fun l : SubLayer Tag Layer => l.Tag ∈ (InternalLayerPrune inters [] [] inters).2) unordered
    simpa using hsplit
  · rw [List.map_append]
    apply h.inOrder.append
    intro a ha b hba
    obtain ⟨l, hl, rfl⟩ := List.mem_map.mp ha
    have hpost := of_decide_eq_true (List.mem_filter.mp hl).2
    obtain ⟨c, hc, rfl, hto⟩ := hba
    -- a connection to a layer that is put in order now is gone
    rcases h.gone c hc with hmem | hmem
    · have hfed : TagInInternalIn l.Tag inters := by
        rw [← hto]
        exact List.mem_map_of_mem hmem
      exact absurd hfed (mem_InternalLayerPrune_tags.mp hpost).2
    · exact hmem
  · intro c hc
    rcases h.gone c hc with hmem | hmem
    · by_cases hfed : TagInInternalIn c.OutTag inters
      · exact .inl (mem_InternalLayerPrune_fst.mpr ⟨hmem, hfed⟩)
      · right
        have hpost := mem_InternalLayerPrune_tags.mpr ⟨List.mem_map_of_mem hmem, hfed⟩
        obtain ⟨l, hl, htag⟩ := List.mem_map.mp (hin c hc).1
        rw [List.map_append, List.mem_append]
        rcases List.mem_append.mp (h.perm.mem_iff.mpr hl) with hl | hl
        · left
          rw [← htag]
          exact List.mem_map_of_mem hl
        · right
          rw [← htag] at hpost ⊢
          exact List.mem_map_of_mem (List.mem_filter.mpr ⟨hl, decide_eq_true hpost⟩)
    · rw [List.map_append, List.mem_append]
      exact .inr (.inl hmem)

theorem MainLoop_spec {all : List (InternalConnect Tag Name)} {main : List (SubLayer Tag Layer) × List (SubLayer Tag Layer)}
    (hin : InternalTagInSublayer all subLayers) (h : Rounds all inters subLayers ordered unordered)
    (hmain : MainLoop ordered unordered inters = some main) : Rounds all [] subLayers main.1 main.2 := by
  induction ordered, unordered, inters using MainLoop.induct with
  | case1 ordered unordered =>
    rw [MainLoop] at hmain
    obtain rfl := Option.some.inj hmain
    exact h
  | case2 ordered unordered cur rest hlt ih =>
    rw [MainLoop, if_pos hlt] at hmain
    exact ih (h.next hin) hmain
  | case3 ordered unordered cur rest hlt =>
    rw [MainLoop, if_neg hlt] at hmain
    cases hmain

/-- Connections each of which comes from where another of them leads to stay to the end. -/
theorem MainLoop_eq_none {P : InternalConnect Tag Name → Prop} {c : InternalConnect Tag Name} (hc : P c)
    (hcycle : ∀ c, P c → ∃ c', P c' ∧ c'.InTag = c.OutTag) (hmem : ∀ c, P c → c ∈ inters) :
    MainLoop ordered unordered inters = none := by
  induction ordered, unordered, inters using MainLoop.induct with
  | case1 ordered unordered => cases hmem c hc
  | case2 ordered unordered cur rest hlt ih =>
    rw [MainLoop, if_pos hlt]
    apply ih
    intro c hc
    obtain ⟨c', hc', hfed⟩ := hcycle c hc
    apply mem_InternalLayerPrune_fst.mpr
    refine ⟨hmem c hc, ?_⟩
    rw [← hfed]
    exact List.mem_map_of_mem (hmem c' hc')
  | case3 ordered unordered cur rest hlt => rw [MainLoop, if_neg hlt]

/-- The loop with a bound on its rounds, for evaluation. -/
def MainLoopBounded : Nat → List (SubLayer Tag Layer) → List (SubLayer Tag Layer) →
    List (InternalConnect Tag Name) → Option (List (SubLayer Tag Layer) × List (SubLayer Tag Layer))
  | _, ordered, unordered, [] => some (ordered, unordered)
  | 0, _, _, _ :: _ => none
  | n + 1, ordered, unordered, cur :: rest =>
    if (InternalLayerPrune (cur :: rest) [] [] (cur :: rest)).1.length < (cur :: rest).length then
      MainLoopBounded n
        (SeparateByPostTag (InternalLayerPrune (cur :: rest) [] [] (cur :: rest)).2 unordered ordered []).1
        (SeparateByPostTag (InternalLayerPrune (cur :: rest) [] [] (cur :: rest)).2 unordered ordered []).2
        (InternalLayerPrune (cur :: rest) [] [] (cur :: rest)).1
    else none

/-- Every round takes a connection away. -/
theorem MainLoop_eq_bounded {n : Nat} (hn : inters.length ≤ n) :
    MainLoop ordered unordered inters = MainLoopBounded n ordered unordered inters := by
  induction n generalizing ordered unordered inters with
  | zero =>
    have hnil : inters = [] := List.eq_nil_of_length_eq_zero (Nat.le_zero.mp hn)
    rw [hnil, MainLoop, MainLoopBounded]
  | succ n ih =>
    cases inters with
    | nil => rw [MainLoop, MainLoopBounded]
    | cons cur rest =>
      rw [MainLoop, MainLoopBounded]
      split
      · next hlt => exact ih (by omega)
      · rfl

theorem exists_MainLoop (hacyclic : Acyclic (Feeds inters)) : ∃ main, MainLoop ordered unordered inters = some main := by
  induction ordered, unordered, inters using MainLoop.induct with
  | case1 ordered unordered => exact ⟨_, by rw [MainLoop]⟩
  | case2 ordered unordered cur rest hlt ih =>
    rw [MainLoop, if_pos hlt]
    apply ih
    intro t hcycle
    apply hacyclic t
    have hle : ∀ a b, Feeds (InternalLayerPrune (cur :: rest) [] [] (cur :: rest)).1 a b → Feeds (cur :: rest) a b := by
      intro a b ⟨c, hc, hends⟩
      exact ⟨c, (mem_InternalLayerPrune_fst.mp hc).1, hends⟩
    exact Relation.TransGen.mono hle _ _ hcycle
  | case3 ordered unordered cur rest hlt =>
    exfalso
    -- no connection is taken away: every one comes from where another leads to
    have hall : ∀ c ∈ cur :: rest, TagInInternalIn c.OutTag (cur :: rest) := by
      rw [InternalLayerPrune_fst, List.nil_append, not_lt] at hlt
      have heq := List.length_filter_eq_length_iff.mp (Nat.le_antisymm (List.length_filter_le _ _) hlt)
      intro c hc
      exact of_decide_eq_true (heq c hc)
    have hpred : ∀ t ∈ (cur :: rest).map InternalConnect.InTag,
        ∃ t' ∈ (cur :: rest).map InternalConnect.InTag, Feeds (cur :: rest) t' t := by
      intro t ht
      obtain ⟨c, hc, rfl⟩ := List.mem_map.mp ht
      exact ⟨c.OutTag, hall c hc, c, hc, rfl, rfl⟩
    exact not_acyclic_of_forall_pred (by simp) hpred hacyclic

/-- Layers without a connection can come first in any order. -/
theorem rounds_SublayerPreprocess :
    Rounds inters inters subLayers (SublayerPreprocess_ inters [] [] subLayers).1
      (SublayerPreprocess_ inters [] [] subLayers).2 := by
  rw [SublayerPreprocess_eq, List.nil_append, List.nil_append]
  refine ⟨?_, ?_, fun c hc => .inl hc⟩
  · have hsplit := List.filter_append_perm (fun l : SubLayer Tag Layer => ¬TagExistInLayerComps l.Tag inters) subLayers
    simpa using hsplit
  · intro pre t post hsplit t' hfeeds
    exfalso
    have ht : t ∈ (subLayers.filter fun l => ¬TagExistInLayerComps l.Tag inters).map SubLayer.Tag := by
      rw [hsplit]
      exact List.mem_append_right _ List.mem_cons_self
    obtain ⟨l, hl, rfl⟩ := List.mem_map.mp ht
    obtain ⟨c, hc, -, hto⟩ := hfeeds
    apply of_decide_eq_true (List.mem_filter.mp hl).2
    right
    rw [← hto]
    exact List.mem_map_of_mem hc

/-- The connections of a cycle. -/
theorem MainLoop_eq_none_of_cycle {t : Tag} (hcycle : Relation.TransGen (Feeds inters) t t) :
    MainLoop ordered unordered inters = none := by
  let onCycle : InternalConnect Tag Name → Prop := fun c => c ∈ inters ∧ Relation.ReflTransGen (Feeds inters) t c.OutTag
    ∧ Relation.ReflTransGen (Feeds inters) c.InTag t
  have hback : ∀ u, Relation.ReflTransGen (Feeds inters) t u → Relation.ReflTransGen (Feeds inters) u t →
      ∃ c, onCycle c ∧ c.InTag = u := by
    intro u htu hut
    have hturn : Relation.TransGen (Feeds inters) t u := by
      rcases Relation.reflTransGen_iff_eq_or_transGen.mp htu with rfl | hlt
      · exact hcycle
      · exact hlt
    obtain ⟨u', ⟨c, hc, rfl, rfl⟩, htu'⟩ := exists_pred_of_transGen hturn
    exact ⟨c, ⟨hc, htu', hut⟩, rfl⟩
  obtain ⟨c, hc, -⟩ := hback t .refl .refl
  apply MainLoop_eq_none hc
  · intro c ⟨hc, hto, hfrom⟩
    exact hback c.OutTag hto (.head ⟨c, hc, rfl, rfl⟩ hfrom)
  · intro c hc
    exact hc.1

theorem TopologicalOrdering_iff : TopologicalOrdering_ subLayers inters = some order ↔
    ∃ main, MainLoop (SublayerPreprocess_ inters [] [] subLayers).1 (SublayerPreprocess_ inters [] [] subLayers).2 inters
      = some main ∧ main.1 ++ main.2 = order := by
  unfold TopologicalOrdering_
  rw [Option.map_eq_some_iff]
  simp only [CascadSublayers_eq]

theorem TopologicalOrdering_eq_bounded : TopologicalOrdering_ subLayers inters =
    (MainLoopBounded inters.length (SublayerPreprocess_ inters [] [] subLayers).1
      (SublayerPreprocess_ inters [] [] subLayers).2 inters).map fun main => CascadSublayers main.1 main.2 := by
  rw [← MainLoop_eq_bounded (Nat.le_refl _)]
  rfl

theorem TopologicalOrdering_spec (hin : InternalTagInSublayer inters subLayers)
    (horder : TopologicalOrdering_ subLayers inters = some order) :
    order.Perm subLayers ∧ InOrder (Feeds inters) (order.map SubLayer.Tag) := by
  obtain ⟨main, hmain, rfl⟩ := TopologicalOrdering_iff.mp horder
  have h := MainLoop_spec hin rounds_SublayerPreprocess hmain
  refine ⟨h.perm, ?_⟩
  rw [List.map_append]
  apply h.inOrder.append
  intro t _ t' ⟨c, hc, hfrom, _⟩
  rcases h.gone c hc with hmem | hmem
  · cases hmem
  · rw [← hfrom]
    exact hmem

theorem exists_TopologicalOrdering_iff :
    (∃ order, TopologicalOrdering_ subLayers inters = some order) ↔ Acyclic (Feeds inters) := by
  constructor
  · rintro ⟨order, horder⟩ t hcycle
    obtain ⟨main, hmain, -⟩ := TopologicalOrdering_iff.mp horder
    rw [MainLoop_eq_none_of_cycle hcycle] at hmain
    cases hmain
  · intro hacyclic
    obtain ⟨main, hmain⟩ := exists_MainLoop hacyclic
    exact ⟨main.1 ++ main.2, TopologicalOrdering_iff.mpr ⟨main, hmain, rfl⟩⟩

/-- There is an order exactly where the connections have no cycle, and an order has every sublayer once
and each behind the layers that feed it. -/
theorem TopologicalOrdering_correct (subLayers : List (SubLayer Tag Layer)) (inters : List (InternalConnect Tag Name))
    (hin : InternalTagInSublayer inters subLayers) :
    ((∃ order, TopologicalOrdering_ subLayers inters = some order) ↔ Acyclic (Feeds inters)) ∧
      ∀ order, TopologicalOrdering_ subLayers inters = some order →
        order.Perm subLayers ∧ InOrder (Feeds inters) (order.map SubLayer.Tag) :=
  ⟨exists_TopologicalOrdering_iff, fun _ horder => TopologicalOrdering_spec hin horder⟩

/-- A layer that feeds two, which feed one. -/
def diamond : List (InternalConnect Nat String) :=
  [⟨1, "out", 3, "in1"⟩, ⟨2, "out", 3, "in2"⟩, ⟨0, "out", 1, "in"⟩, ⟨0, "out", 2, "in"⟩]

def diamondLayers : List (SubLayer Nat Unit) := [⟨3, ()⟩, ⟨2, ()⟩, ⟨1, ()⟩, ⟨0, ()⟩]

theorem TopologicalOrdering_correct_diamond :
    ((∃ order, TopologicalOrdering_ diamondLayers diamond = some order) ↔ Acyclic (Feeds diamond)) ∧
      ∀ order, TopologicalOrdering_ diamondLayers diamond = some order →
        order.Perm diamondLayers ∧ InOrder (Feeds diamond) (order.map SubLayer.Tag) :=
  TopologicalOrdering_correct diamondLayers diamond (by decide)

example : TopologicalOrdering_ diamondLayers diamond = some [⟨0, ()⟩, ⟨2, ()⟩, ⟨1, ()⟩, ⟨3, ()⟩] := by
  rw [TopologicalOrdering_eq_bounded]
  decide

end

namespace ComposeTopology

variable (topo : ComposeTopology Tag Name Layer)

/-- The tags of the sublayers, in order. -/
def tags : List Tag := topo.TopologicalOrdering.map SubLayer.Tag

theorem tags_perm : topo.tags.Perm (topo.SubLayers.map SubLayer.Tag) :=
  (TopologicalOrdering_spec topo.asserts.internalTag topo.ordering).1.map SubLayer.Tag

theorem mem_tags {t : Tag} : t ∈ topo.tags ↔ t ∈ topo.SubLayers.map SubLayer.Tag := topo.tags_perm.mem_iff

theorem nodup_tags : topo.tags.Nodup := by
  rw [topo.tags_perm.nodup_iff]
  exact List.pairwise_map.mpr topo.asserts.isUnique

theorem inOrder_tags : InOrder (Feeds topo.InterConnects) topo.tags :=
  (TopologicalOrdering_spec topo.asserts.internalTag topo.ordering).2

theorem pairwise_input (tag : Tag) : topo.InputConnects.Pairwise fun c c' => c.InLayerTag = tag → c'.InLayerTag = tag →
    c.InLayerName ≠ c'.InLayerName :=
  topo.asserts.uniqueInput.imp fun h hc hc' => h.resolve_left fun hne => hne (hc.trans hc'.symm)

theorem pairwise_internal (tag : Tag) : topo.InterConnects.Pairwise fun c c' => c.InTag = tag → c'.InTag = tag →
    c.InName ≠ c'.InName :=
  topo.asserts.uniqueInternal.imp fun h hc hc' => h.resolve_left fun hne => hne (hc.trans hc'.symm)

theorem pairwise_output (sel : OutConnect Tag Name → Prop) :
    topo.OutputConnects.Pairwise fun c c' => sel c → sel c' → c.OutName ≠ c'.OutName :=
  topo.asserts.uniqueOutput.imp fun h _ _ => h

end ComposeTopology

end Perception.MetaNN
