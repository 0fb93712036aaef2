import Perception.Cfg.Allocation
import Perception.Cfg.Mirror

/-!
# Updates that throw

An update changes the configuration, then the lookup map, then the tables, and it can
throw between any two changes. Here: when a command that throws leaves all of them as
they were, for every state and so for every run.
-/
namespace Perception.Cfg

set_option autoImplicit false

open Perception.Lib Perception.Db StateExcept

namespace CfgMng

/-- The configuration, the lookup map and the tables are the same. -/
structure Same (s s' : CfgMng) : Prop where
  cfg : s'.m_jRuntimeSysCfg = s.m_jRuntimeSysCfg
  map : s'.m_mapRuntimeSysCfg = s.m_mapRuntimeSysCfg
  tables : ∀ t, SortedMap.find? s'.db.tables t = SortedMap.find? s.db.tables t

theorem Same.refl (s : CfgMng) : Same s s := ⟨rfl, rfl, fun _ => rfl⟩

/-- The update throws before it has changed anything. -/
def Early (s : CfgMng) (strRootNode : String) (jSubNode : Json) : Prop :=
  stopsClean (s.m_jRuntimeSysCfg.find? strRootNode) jSubNode.items = true ∨
    s.m_jRuntimeSysCfg = .null ∧ jSubNode.items = []

/-- The node in place is submitted again, all its entries having an index. -/
def Resubmits (s : CfgMng) (strRootNode : String) (jSubNode : Json) : Prop :=
  s.m_jRuntimeSysCfg.find? strRootNode = some jSubNode ∧ Assigned jSubNode

/-- The lookup map is what `ParseJson` makes of the configuration, as far as it gets. -/
def MapCurrent (s : CfgMng) : Prop := s.m_mapRuntimeSysCfg = stateOf (ParseJson s.m_jRuntimeSysCfg [])

/-- The tables are what their update makes of them: the table of the root node, which is
deleted, holds the rows that are then written, if any are; a table that is only
initialised exists, and is not empty unless there is nothing to write. -/
def TablesCurrent (exFactory : CfgObjMap) (s : CfgMng) (strRootNode : String) : Prop :=
  exFactory.getFirst (strDbNode ++ strDbSqliteNode) = none ∨ ∀ t ∈ tableOrder,
    if t ∈ reached s.m_mapRuntimeSysCfg tableOrder then
      if delAttached exFactory ∧ t = strRootNode then s.db.Holds t (rowsToWrite s.m_mapRuntimeSysCfg t)
      else ∃ rows, s.db.Holds t rows ∧ (rows = [] → rowsToWrite s.m_mapRuntimeSysCfg t = [])
    else delAttached exFactory ∧ t = strRootNode → ∀ rows, s.db.Holds t rows → rows = []

/-- The exception of the command does no harm. -/
def Harmless (exFactory : CfgObjMap) (s : CfgMng) (strRootNode : String) : Except Exn Json → Prop
  | .error _ => True
  | .ok jSubNode => Early s strRootNode jSubNode ∨
      Resubmits s strRootNode jSubNode ∧ MapCurrent s ∧ (s.Parsed → TablesCurrent exFactory s strRootNode)

theorem stateOf_throwOption {σ : Type} (x : Option Exn) (s : σ) :
    stateOf ((throwOption x : EStateM Exn σ Unit) s) = s := by
  cases x <;> rfl

theorem stateOf_guarded {σ : Type} (b : Prop) [Decidable b] (x : Option Exn) (s : σ) :
    stateOf ((if b then throwOption x else pure ⟨⟩ : EStateM Exn σ Unit) s) = s := by
  split
  · exact stateOf_throwOption x s
  · rfl

/-- The runtime updates of the modules are not part of the state. -/
theorem stateOf_hooks (c : Command) (s : CfgMng) : stateOf ((c.hooks : Cmd Unit) s) = s := by
  unfold Command.hooks
  split
  · refine stateOf_bind_rel (R := fun s s' => s' = s) (fun h h' => h'.trans h) ?_ fun _ s₁ _ => ?_
    · exact stateOf_throwOption _ s
    · exact stateOf_guarded _ _ s₁
  · exact stateOf_guarded _ _ s

theorem update_root {c : Command} {r : String} {body : Except Exn Json} (h : c.update = some (r, body)) :
    r ∈ rootNodes ∧ (∀ j, body = .ok j → j.Sorted) ∧ c.u32Cmd ≠ 0x11 ∧ c.u32Cmd ≠ 0x12 := by
  unfold Command.update at h
  split at h
  · next hcmd =>
    cases h
    refine ⟨by decide, fun j hj => ?_, by rw [hcmd]; decide, by rw [hcmd]; decide⟩
    obtain ⟨jTasks, -, hj⟩ := except_bind_eq_ok.mp hj
    obtain ⟨objs, -, hj⟩ := except_bind_eq_ok.mp hj
    cases hj
    rintro m hm
    cases hm
    exact List.pairwise_singleton _ _
  · split at h
    · next hcmd =>
      cases h
      exact ⟨by decide, c.sorted, by rw [hcmd]; decide, by rw [hcmd]; decide⟩
    · split at h
      · next hcmd =>
        cases h
        exact ⟨by decide, c.sorted, by rw [hcmd]; decide, by rw [hcmd]; decide⟩
      · cases h

/-- The database is configured, and the lookup map is made. -/
def loaded : CfgMng :=
  { databaseOnly with m_mapRuntimeSysCfg := stateOf (ParseJson databaseOnly.m_jRuntimeSysCfg []) }

end CfgMng

end Perception.Cfg
