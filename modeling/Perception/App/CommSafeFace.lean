import Perception.App.CommSafe
import Perception.Lib.AutoTable

/-!
# The face task

`CCommSafeFace` keeps the configuration of its task and algorithm and the data sources, and
files one row for each recognised face.
-/
namespace Perception.App

set_option autoImplicit false

open Perception.Lib Perception.Cfg Perception.Db Perception.Alg

/-- A row for `FaceReportTable`, without its date and image. -/
structure FaceReport where
  task_flag : String
  alg_idx : String
  alert_type : String
  data_src : String
  face_id : String

/-- What an alert does to its table: the old rows are deleted before the row is made. -/
def storeAlert {α : Type} (s32QueueSize : Nat) (row : Except Exn α) : Traced (AutoTable.Stmt α) Unit := do
  .emit (.deleteBelow s32QueueSize)
  match row with
  | .ok row => .emit (.insert row)
  | .error _ => .halt

structure CommSafeFace where
  /-- `m_ptrMsgBus` is set. -/
  m_ptrMsgBus : Bool
  m_jTaskCfg : Json
  m_jAlgCfg : Json
  m_mapDataSrc : List (String × Json)

namespace CommSafeFace

def s32QueueSize : Nat := 5

def new : CommSafeFace := ⟨false, .null, .null, []⟩

def GetDataSrc (obj : CommSafeFace) (strKey : String) : Option Json := SortedMap.find? obj.m_mapDataSrc strKey

/-- The row for a face seen by a data source. -/
def alertRow (obj : CommSafeFace) (jDataSrcInfo : Json) (faceid : Int) : Except Exn FaceReport := do
  let strType ← obj.m_jTaskCfg.attr strAttriType
  let strIdx ← obj.m_jTaskCfg.attr strAttriIdx
  let strSrcType ← jDataSrcInfo.attr strAttriType
  let strSrcIdx ← jDataSrcInfo.attr strAttriIdx
  let strDesc ← jDataSrcInfo.attr strAttriDesc
  pure ⟨strType ++ strIdx, strFaceAlgTypeIdxValue, toString (1 : Int),
    strSrcType ++ strSrcIdx ++ ":" ++ strDesc, toString faceid⟩

/-- What a recognised face does to `FaceReportTable`. -/
def ProResultMsg (obj : CommSafeFace) (strIp : String) (faceid : Int) : Traced (AutoTable.Stmt FaceReport) Unit :=
  match obj.GetDataSrc strIp with
  | none => pure ()
  | some jDataSrcInfo =>
    if !obj.m_ptrMsgBus then pure ()
    else storeAlert s32QueueSize (obj.alertRow jDataSrcInfo faceid)

end CommSafeFace

end Perception.App
