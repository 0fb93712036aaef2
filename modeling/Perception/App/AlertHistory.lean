import Perception.App.CommSafeFace

/-!
# The alert tables are trimmed before each insertion

The object of a task deletes the rows that lie `s32QueueSize` or more below the largest id
and then inserts its row, so that a table settles at one row more than `s32QueueSize`.
-/
namespace Perception.App

set_option autoImplicit false

open Perception.Lib Perception.Cfg Perception.Db Perception.Alg
open AutoTable (Stmt Trimmed)

namespace CommSafeDetect

def s32QueueSize : Nat := 20

/-- One turn of the loop over the task list, as it acts on `DetectReportTable`. -/
def saveAlertStmts (obj : CommSafeDetect) (strIp : String) (dets : List detection) (task : String) :
    Traced (Stmt DetectReport) Unit :=
  if (DetectInference dets task).isEmpty then pure ()
  else storeAlert s32QueueSize (obj.alertRow strIp task)

/-- What a result does to `DetectReportTable`. -/
def ProResultStmts (obj : CommSafeDetect) (strIp : String) (dets : List detection) : Traced (Stmt DetectReport) Unit :=
  if (SortedMap.find? obj.m_mapDataSrc strIp).isNone then pure ()
  else obj.m_lstStrTask.forM (obj.saveAlertStmts strIp dets)

end CommSafeDetect

/-- A result that a detection object is given. -/
structure DetectResult where
  obj : CommSafeDetect
  strIp : String
  dets : List detection

/-- A face that a face object is given. -/
structure FaceResult where
  obj : CommSafeFace
  strIp : String
  faceid : Int

/-- The statements of a run of results; an exception ends it. -/
def detectStmts (rs : List DetectResult) : List (Stmt DetectReport) :=
  (rs.forM fun r => r.obj.ProResultStmts r.strIp r.dets).log

def faceStmts (rs : List FaceResult) : List (Stmt FaceReport) :=
  (rs.forM fun r => r.obj.ProResultMsg r.strIp r.faceid).log

/-- The table holds the last alerts of all that were inserted, `n` at most. -/
def HoldsRecent {α : Type} (n : Nat) (hist : List α) (t : AutoTable α) : Prop :=
  t.rows.map Prod.snd = hist.rtake n

def Action.row? : Action → Option DetectReport
  | .insert row => some row
  | .nohelmet => none

/-- The rows that a computation on the table inserts are those of another one, and both
return or neither does. -/
structure SameRows (x : Traced (Stmt DetectReport) Unit) (y : Traced Action Unit) : Prop where
  rows : AutoTable.inserted x.log = y.log.filterMap Action.row?
  val : x.val = y.val

theorem SameRows.bind {x : Traced (Stmt DetectReport) Unit} {y : Traced Action Unit}
    {f : Unit → Traced (Stmt DetectReport) Unit} {g : Unit → Traced Action Unit} (h : SameRows x y)
    (hf : SameRows (f ()) (g ())) : SameRows (x >>= f) (y >>= g) := by
  cases hv : x.val with
  | none =>
    have hy : y.val = none := h.val ▸ hv
    rw [Traced.bind_of_none hv, Traced.bind_of_none hy]
    exact ⟨h.rows, rfl⟩
  | some a =>
    have hy : y.val = some a := h.val ▸ hv
    rw [Traced.bind_of_some hv, Traced.bind_of_some hy]
    constructor
    · rw [AutoTable.inserted_append, List.filterMap_append, h.rows, hf.rows]
    · exact hf.val

theorem SameRows.forM {ι : Type} {f : ι → Traced (Stmt DetectReport) Unit} {g : ι → Traced Action Unit}
    (h : ∀ i, SameRows (f i) (g i)) (is : List ι) : SameRows (is.forM f) (is.forM g) := by
  induction is with
  | nil => exact ⟨rfl, rfl⟩
  | cons i is ih => exact (h i).bind ih

theorem CommSafeDetect.sameRows_saveAlert (obj : CommSafeDetect) (strIp : String) (dets : List detection)
    (task : String) : SameRows (obj.saveAlertStmts strIp dets task) (obj.saveAlert strIp dets task) := by
  unfold saveAlertStmts saveAlert
  split
  · exact ⟨rfl, rfl⟩
  · cases obj.alertRow strIp task with
    | ok row => exact ⟨rfl, rfl⟩
    | error e => exact ⟨rfl, rfl⟩

/-- The rows inserted for a result are the alerts that the task makes of it. -/
theorem CommSafeDetect.sameRows_ProResultMsg (obj : CommSafeDetect) (strIp : String) (dets : List detection) :
    SameRows (obj.ProResultStmts strIp dets) (obj.ProResultMsg strIp dets) := by
  unfold ProResultStmts ProResultMsg
  split
  · exact ⟨rfl, rfl⟩
  · rw [← bind_pure (obj.m_lstStrTask.forM (obj.saveAlertStmts strIp dets))]
    apply (SameRows.forM (obj.sameRows_saveAlert strIp dets) _).bind
    split
    · exact ⟨rfl, rfl⟩
    · exact ⟨rfl, rfl⟩

section Trimmed

variable {α ι : Type} {n : Nat}

theorem trimmed_bind {x : Traced (Stmt α) Unit} {f : Unit → Traced (Stmt α) Unit} (hx : Trimmed n x.log)
    (hf : Trimmed n (f ()).log) : Trimmed n (x >>= f).log := by
  cases hv : x.val with
  | none =>
    rw [Traced.bind_of_none hv]
    exact hx
  | some a =>
    rw [Traced.bind_of_some hv]
    exact hx.append hf

theorem trimmed_forM {f : ι → Traced (Stmt α) Unit} (hf : ∀ i, Trimmed n (f i).log) (is : List ι) :
    Trimmed n (is.forM f).log := by
  induction is with
  | nil => exact .nil
  | cons i is ih =>
    exact trimmed_bind (hf i) ih

theorem trimmed_storeAlert (row : Except Exn α) : Trimmed n (storeAlert n row).log := by
  cases row with
  | ok row => exact .store row .nil
  | error e => exact .delete .nil

end Trimmed

theorem CommSafeDetect.trimmed_saveAlertStmts (obj : CommSafeDetect) (strIp : String) (dets : List detection)
    (task : String) : Trimmed s32QueueSize (obj.saveAlertStmts strIp dets task).log := by
  unfold saveAlertStmts
  split
  · exact .nil
  · exact trimmed_storeAlert _

theorem trimmed_detectStmts (rs : List DetectResult) : Trimmed CommSafeDetect.s32QueueSize (detectStmts rs) := by
  refine trimmed_forM (fun r => ?_) rs
  unfold CommSafeDetect.ProResultStmts
  split
  · exact .nil
  · exact trimmed_forM (r.obj.trimmed_saveAlertStmts r.strIp r.dets) _

theorem trimmed_faceStmts (rs : List FaceResult) : Trimmed CommSafeFace.s32QueueSize (faceStmts rs) := by
  refine trimmed_forM (fun r => ?_) rs
  unfold CommSafeFace.ProResultMsg
  split
  · exact .nil
  · split
    · exact .nil
    · exact trimmed_storeAlert _

/-- After each insertion a table holds the last alerts, one more than `s32QueueSize`. -/
theorem holdsRecent_succ :
    (∀ (s : Nat) (rs : List DetectResult),
      AutoTable.AfterEachInsert (HoldsRecent (CommSafeDetect.s32QueueSize + 1)) (.empty s) (detectStmts rs)) ∧
    (∀ (s : Nat) (rs : List FaceResult),
      AutoTable.AfterEachInsert (HoldsRecent (CommSafeFace.s32QueueSize + 1)) (.empty s) (faceStmts rs)) := by
  constructor
  · intro s rs
    exact AutoTable.afterEachInsert_rtake_succ (trimmed_detectStmts rs) s
  · intro s rs
    exact AutoTable.afterEachInsert_rtake_succ (trimmed_faceStmts rs) s

/-- A table holds the last `s32QueueSize` alerts after each insertion only in a run that
inserts no more than that. -/
theorem holdsRecent_iff (s : Nat) (ds : List DetectResult) (fs : List FaceResult) :
    (AutoTable.AfterEachInsert (HoldsRecent CommSafeDetect.s32QueueSize) (.empty s) (detectStmts ds) ↔
        (AutoTable.inserted (detectStmts ds)).length ≤ CommSafeDetect.s32QueueSize) ∧
    (AutoTable.AfterEachInsert (HoldsRecent CommSafeFace.s32QueueSize) (.empty s) (faceStmts fs) ↔
        (AutoTable.inserted (faceStmts fs)).length ≤ CommSafeFace.s32QueueSize) :=
  ⟨AutoTable.afterEachInsert_rtake_iff (trimmed_detectStmts ds) s,
    AutoTable.afterEachInsert_rtake_iff (trimmed_faceStmts fs) s⟩

/-- A person in front of the only data source of a task that looks for persons. -/
def personResult : DetectResult where
  obj := ⟨.object [(strAttriType, .string "task"), (strAttriIdx, .string "1")], ["0"],
    [("10.0.78.20", .object [(strAttriType, .string "ipc"), (strAttriIdx, .string "1"),
      (strAttriDesc, .string "gate")])], true⟩
  strIp := "10.0.78.20"
  dets := [⟨⟨0, 0, 0, 0⟩, 0, true⟩]

/-- With the twenty-first alert there are twenty-one rows. -/
theorem not_holdsRecent_person :
    ¬ AutoTable.AfterEachInsert (HoldsRecent CommSafeDetect.s32QueueSize) (.empty 0)
      (detectStmts (List.replicate 21 personResult)) := by
  intro h
  have hlen := (AutoTable.afterEachInsert_rtake_iff (trimmed_detectStmts _) 0).mp h
  have h21 : (AutoTable.inserted (detectStmts (List.replicate 21 personResult))).length = 21 := rfl
  rw [h21] at hlen
  exact absurd hlen (by decide)

end Perception.App
