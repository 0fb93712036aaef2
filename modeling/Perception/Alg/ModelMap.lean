import Perception.Alg.Subscription
import Perception.Lib.History

/-!
# The models that a detection algorithm has loaded

Over all calls of `CDetectAlg::Init`, those that throw included. A key is put into the map
before its model is loaded and stays there.
-/
namespace Perception.Alg.DetectAlg

set_option autoImplicit false

open Perception.Lib Perception.Lib.History Perception.Cfg Perception.Db Perception.Transfer StateExcept

/-- The key that a call looks its model up under; none if it throws before. -/
def lookedUp (c : DetectCall) : Option String :=
  match SetReportTopic [] c.taskCfg, mapKey c with
  | .ok _, .ok strAlgMapKey => some strAlgMapKey
  | _, _ => none

/-- The model of a call can be loaded. -/
def Loads (c : DetectCall) : Prop := (∃ strName, modelName c = .ok strName) ∧ c.model_load = true

/-- Every model in the map is loaded. -/
def AllLoaded (m_mapAlgModel : List (String × rknn_context)) : Prop :=
  ∀ strAlgMapKey context, SortedMap.find? m_mapAlgModel strAlgMapKey = some context → context = .loaded

variable {σ : Type}

/-- The call returns true only if the model of its algorithm is loaded then. -/
def TrueIfLoaded (this : σ) (s : DetectAlg × FrameBus σ) (c : DetectCall) : Prop :=
  ∀ s', Init this c s = .ok true s' → ∃ strAlgMapKey, lookedUp c = some strAlgMapKey ∧
    SortedMap.find? s'.1.m_mapAlgModel strAlgMapKey = some .loaded

/-- A call, after which the caller goes on whatever came of it. -/
def call (this : σ) (s : DetectAlg × FrameBus σ) (c : DetectCall) : Option (DetectAlg × FrameBus σ) :=
  some (stateOf (Init this c s))

/-- A call that gets to a new key loads its model. -/
def NewLoads (s : DetectAlg × FrameBus σ) (c : DetectCall) : Prop :=
  ∀ strAlgMapKey, lookedUp c = some strAlgMapKey → strAlgMapKey ∉ SortedMap.keys s.1.m_mapAlgModel → Loads c

theorem SetReportTopic_ok {m_mapResultReportTopic : List (String × Int)} {taskCfg : Json} {topics : List (String × Int)}
    (h : SetReportTopic m_mapResultReportTopic taskCfg = .ok topics) (m : List (String × Int)) :
    ∃ topics', SetReportTopic m taskCfg = .ok topics' := by
  obtain ⟨strType, htype, h⟩ := except_bind_eq_ok.mp h
  obtain ⟨strIdx, hidx, h⟩ := except_bind_eq_ok.mp h
  exact ⟨_, except_bind_eq_ok.mpr ⟨strType, htype, except_bind_eq_ok.mpr ⟨strIdx, hidx, rfl⟩⟩⟩

theorem m_mapAlgModel_DataSrcInit (this : σ) (DataSrcCfg : Json) (s : DetectAlg × FrameBus σ) :
    (stateOf (DataSrcInit this DataSrcCfg s)).1.m_mapAlgModel = s.1.m_mapAlgModel := by
  unfold DataSrcInit
  cases dataSrcTopic DataSrcCfg with
  | error e => rfl
  | ok src =>
    show (attachDataSrc this src.1 src.2 s).1.m_mapAlgModel = _
    unfold attachDataSrc
    split
    · rfl
    · rfl

/-- Behind the topic a call is `AlgInit`, and the data source if that returns true. -/
theorem Init_of_topic {c : DetectCall} {s : DetectAlg × FrameBus σ} {topics : List (String × Int)}
    (h : SetReportTopic s.1.m_mapResultReportTopic c.taskCfg = .ok topics) (this : σ) :
    Init this c s = (do
      let loaded ← AlgInit c
      if loaded then DataSrcInit this c.DataSrcCfg else pure false : Cmd σ Bool)
        ({ s.1 with m_mapResultReportTopic := topics }, s.2) := by
  unfold Init
  change (fromExcept (SetReportTopic s.1.m_mapResultReportTopic c.taskCfg) >>= fun _ => _ : Cmd σ Bool) s = _
  rw [h]
  rfl

theorem Init_of_no_topic {c : DetectCall} {s : DetectAlg × FrameBus σ} {e : Exn}
    (h : SetReportTopic s.1.m_mapResultReportTopic c.taskCfg = .error e) (this : σ) : Init this c s = .error e s := by
  unfold Init
  change (fromExcept (SetReportTopic s.1.m_mapResultReportTopic c.taskCfg) >>= fun _ => _ : Cmd σ Bool) s = _
  rw [h]
  rfl

/-- A call that throws before it gets to a key. -/
theorem Init_not_lookedUp {c : DetectCall} (h : lookedUp c = none) (this : σ) (s : DetectAlg × FrameBus σ) :
    (stateOf (Init this c s)).1.m_mapAlgModel = s.1.m_mapAlgModel ∧ ∀ s', Init this c s ≠ .ok true s' := by
  cases htopic : SetReportTopic s.1.m_mapResultReportTopic c.taskCfg with
  | error e =>
    rw [Init_of_no_topic htopic]
    exact ⟨rfl, fun _ => nofun⟩
  | ok topics =>
    obtain ⟨_, hread⟩ := SetReportTopic_ok htopic []
    cases hkey : mapKey c with
    | error e =>
      rw [Init_of_topic htopic, bind_of_error (AlgInit_unread hkey _)]
      exact ⟨rfl, fun _ => nofun⟩
    | ok strAlgMapKey =>
      rw [lookedUp, hread, hkey] at h
      cases h

/-- A call that gets to a key leaves the map as `AlgInit` leaves it. -/
theorem Init_lookedUp {c : DetectCall} {strAlgMapKey : String} (h : lookedUp c = some strAlgMapKey) (this : σ)
    (s : DetectAlg × FrameBus σ) :
    mapKey c = .ok strAlgMapKey ∧ ∃ s₁ : DetectAlg × FrameBus σ, s₁.1.m_mapAlgModel = s.1.m_mapAlgModel ∧
      (stateOf (Init this c s)).1.m_mapAlgModel = (stateOf (AlgInit c s₁)).1.m_mapAlgModel ∧
        ∀ s', Init this c s = .ok true s' → ∃ s₂, AlgInit c s₁ = .ok true s₂ := by
  unfold lookedUp at h
  split at h
  · rename_i topics₀ key htopic₀ hkey
    obtain rfl := Option.some.inj h
    obtain ⟨topics, htopic⟩ := SetReportTopic_ok htopic₀ s.1.m_mapResultReportTopic
    refine ⟨hkey, ({ s.1 with m_mapResultReportTopic := topics }, s.2), rfl, ?_⟩
    rw [Init_of_topic htopic]
    cases halg : AlgInit c ({ s.1 with m_mapResultReportTopic := topics }, s.2) with
    | error e s₂ =>
      rw [bind_of_error halg]
      exact ⟨rfl, fun _ => nofun⟩
    | ok loaded s₂ =>
      rw [bind_of_ok halg]
      cases loaded with
      | false => exact ⟨rfl, fun _ => nofun⟩
      | true => exact ⟨m_mapAlgModel_DataSrcInit this c.DataSrcCfg s₂, fun _ _ => ⟨s₂, rfl⟩⟩
  · cases h

theorem AllLoaded.call {this : σ} {s s' : DetectAlg × FrameBus σ} {c : DetectCall} (hs : AllLoaded s.1.m_mapAlgModel)
    (hc : NewLoads s c) (h : call this s c = some s') : AllLoaded s'.1.m_mapAlgModel := by
  obtain rfl := Option.some.inj h
  cases hlook : lookedUp c with
  | none => rwa [(Init_not_lookedUp hlook this s).1]
  | some strAlgMapKey =>
    obtain ⟨hkey, s₁, hsame, hmap, -⟩ := Init_lookedUp hlook this s
    rw [hmap, AlgInit_read hkey, hsame]
    by_cases hold : strAlgMapKey ∈ SortedMap.keys s.1.m_mapAlgModel
    · rw [if_pos hold]
      exact hsame ▸ hs
    · obtain ⟨⟨strName, hname⟩, hload⟩ := hc strAlgMapKey hlook hold
      rw [if_neg hold, hname]
      simp only [hload, if_true, stateOf]
      intro k context hfind
      rw [SortedMap.find?_insert] at hfind
      split at hfind
      · exact (Option.some.inj hfind).symm
      · rename_i hne
        rw [SortedMap.find?_emplace, if_neg hne, Option.or_none] at hfind
        exact hs k context hfind

/-- A new key whose model is not loaded stays in the map. -/
theorem newLoads_of_allLoaded {this : σ} {s s' : DetectAlg × FrameBus σ} {c : DetectCall} (h : call this s c = some s')
    (hs' : AllLoaded s'.1.m_mapAlgModel) : NewLoads s c := by
  obtain rfl := Option.some.inj h
  intro strAlgMapKey hlook hnew
  obtain ⟨hkey, s₁, hsame, hmap, -⟩ := Init_lookedUp hlook this s
  rw [hmap, AlgInit_read hkey, hsame, if_neg hnew] at hs'
  have hthere : ¬AllLoaded (SortedMap.emplace s.1.m_mapAlgModel strAlgMapKey .uninitialised) := by
    intro hall
    have hfind : SortedMap.find? (SortedMap.emplace s.1.m_mapAlgModel strAlgMapKey rknn_context.uninitialised) strAlgMapKey =
        some .uninitialised := by
      rw [SortedMap.find?_emplace, SortedMap.find?_eq_none.mpr hnew, if_pos rfl, Option.none_or]
    cases hall _ _ hfind
  cases hname : modelName c with
  | error e =>
    rw [hname] at hs'
    exact absurd hs' hthere
  | ok strName =>
    refine ⟨⟨strName, hname⟩, ?_⟩
    by_contra hload
    simp only [hname, if_neg hload, stateOf] at hs'
    exact hthere hs'

/-- Whatever becomes of its model, the key of a call is in the map then. -/
theorem mem_keys_of_lookedUp {c : DetectCall} {strAlgMapKey : String} (h : lookedUp c = some strAlgMapKey) (this : σ)
    (s : DetectAlg × FrameBus σ) : strAlgMapKey ∈ SortedMap.keys (stateOf (Init this c s)).1.m_mapAlgModel := by
  obtain ⟨hkey, s₁, hsame, hmap, -⟩ := Init_lookedUp h this s
  rw [hmap, AlgInit_read hkey]
  split
  · assumption
  · have hthere : strAlgMapKey ∈ SortedMap.keys
        (SortedMap.emplace s₁.1.m_mapAlgModel strAlgMapKey rknn_context.uninitialised) :=
      SortedMap.mem_keys_emplace.mpr (.inr rfl)
    cases modelName c with
    | error e => exact hthere
    | ok strName =>
      cases c.model_load with
      | false => exact hthere
      | true =>
        show _ ∈ SortedMap.keys (SortedMap.insert _ _ _)
        rw [SortedMap.keys_insert_of_mem _ hthere]
        exact hthere

theorem TrueIfLoaded.of_allLoaded {this : σ} {s : DetectAlg × FrameBus σ} {c : DetectCall} (hs : AllLoaded s.1.m_mapAlgModel)
    (hc : NewLoads s c) : TrueIfLoaded this s c := by
  intro s' htrue
  cases hlook : lookedUp c with
  | none => exact absurd htrue ((Init_not_lookedUp hlook this s).2 s')
  | some strAlgMapKey =>
    refine ⟨strAlgMapKey, rfl, ?_⟩
    have hall : AllLoaded s'.1.m_mapAlgModel := AllLoaded.call hs hc (by rw [call, htrue]; rfl)
    have hthere := mem_keys_of_lookedUp hlook this s
    rw [htrue] at hthere
    obtain ⟨context, hfind⟩ : ∃ context, SortedMap.find? s'.1.m_mapAlgModel strAlgMapKey = some context :=
      SortedMap.mem_keys.mp hthere
    rw [hfind, hall _ _ hfind]

/-- **The map holds loaded models** exactly in the runs in which every call that gets to a
new key loads its model. -/
theorem loaded_iff (this : σ) (bus : FrameBus σ) (calls : List DetectCall) :
    Always (call this) (fun s => AllLoaded s.1.m_mapAlgModel) (new, bus) calls ∧
        EachStep (call this) (TrueIfLoaded this) (new, bus) calls ↔
      EachStep (call this) NewLoads (new, bus) calls := by
  have hnew : AllLoaded (new, bus).1.m_mapAlgModel := fun _ _ => nofun
  have hstep : ∀ s c s', AllLoaded s.1.m_mapAlgModel → NewLoads s c → call this s c = some s' → AllLoaded s'.1.m_mapAlgModel :=
    fun s c s' hs hc h => hs.call hc h
  constructor
  · intro h pre c post s hcalls hrun
    have hnext : History.run (call this) (new, bus) (pre ++ [c]) = some (stateOf (Init this c s)) := by
      unfold History.run at hrun ⊢
      rw [List.foldlM_append, hrun]
      rfl
    exact @newLoads_of_allLoaded _ this _ _ _ rfl (h.1 (pre ++ [c]) post _ (by rw [hcalls, List.append_assoc]; rfl) hnext)
  · intro h
    have hall := always_of_eachStep hstep hnew h
    refine ⟨hall, fun pre c post s' hcalls hrun => ?_⟩
    exact TrueIfLoaded.of_allLoaded (hall pre (c :: post) s' hcalls hrun) (h pre c post s' hcalls hrun)

/-- A model file that is not there. -/
def brokenCall : DetectCall :=
  { detectCall (VsTransferMng.rtspCamera "1" "10.0.78.201" "camera1") with model_load := false }

/-- The model cannot be loaded, and the next call finds its key in the map. -/
theorem not_loaded_retried : ∃ s s' : DetectAlg × FrameBus Unit,
    Init () brokenCall (new, ⟨[]⟩) = .ok false s ∧ Init () brokenCall s = .ok true s' ∧
      SortedMap.find? s'.1.m_mapAlgModel "detect1" = some .uninitialised ∧
      ¬(Always (call ()) (fun s => AllLoaded s.1.m_mapAlgModel) (new, ⟨[]⟩) [brokenCall, brokenCall] ∧
        EachStep (call ()) (TrueIfLoaded ()) (new, ⟨[]⟩) [brokenCall, brokenCall]) := by
  refine ⟨_, _, rfl, rfl, by decide +kernel, fun h => ?_⟩
  have hall := h.1 [brokenCall] [brokenCall] _ rfl rfl
  cases hall "detect1" .uninitialised (by decide +kernel)

end Perception.Alg.DetectAlg
