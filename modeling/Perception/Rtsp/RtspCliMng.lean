import Perception.Rtsp.FFmpeg

/-!
# One camera

`CRtspCliMng` pulls the stream of a camera. The frames arrive in its callback while the
scheduler makes a step, the configuration is updated from another thread, and a loop calls
`PullStream`, which restarts the camera. The clock and what ONVIF answers are inputs.
-/
namespace Perception.Rtsp

set_option autoImplicit false

inductive WorkMode
  | STREAM_MODEL
  | SNAPSHOT_MODEL
  deriving DecidableEq

structure TCameraBaseInfo where
  s32WorkMode : WorkMode
  bUpdate : Bool

/-- What the callback is called with, and what the decoder makes of a packet then. -/
structure Received where
  pRecord : List (List UInt8)
  fReceiveBuffer : List UInt8
  avcodec_decode_video2 : List UInt8 → Option Frame

structure CRtspCliMng where
  m_CamBaseInfo : TCameraBaseInfo
  m_TimeForReConn : Int
  m_bReconnFlag : Bool
  m_bFirstPicFlag : Bool
  /-- The queue, as long as it is there. -/
  m_VSQueWekPtr : Option CVSQueue
  /-- `m_pScheduler` and `m_pEnv` are set. -/
  m_pScheduler : Bool
  m_FmpegPtr : Option CFFmpeg
  /-- `m_RtspClientPtr` is set. -/
  m_RtspClientPtr : Bool
  /-- `m_ptrSnapShotThread` is set. -/
  m_ptrSnapShotThread : Bool

namespace CRtspCliMng

def s32ReconTimeOut : Int := 5

def new (camBaseInfo : TCameraBaseInfo) (que : Option CVSQueue) (now : Int) : CRtspCliMng :=
  ⟨camBaseInfo, now, false, true, que, false, none, false, false⟩

def GetUpdate (s : CRtspCliMng) : Bool := s.m_CamBaseInfo.bUpdate

def SetUpdate (s : CRtspCliMng) (bUpdate : Bool) : CRtspCliMng :=
  { s with m_CamBaseInfo := { s.m_CamBaseInfo with bUpdate := bUpdate } }

def UpdateCamBaseInfo (s : CRtspCliMng) (camBaseInfo : TCameraBaseInfo) : CRtspCliMng :=
  ({ s with m_CamBaseInfo := camBaseInfo } : CRtspCliMng).SetUpdate true

def SetPullStreamCB (s : CRtspCliMng) : CRtspCliMng :=
  match s.m_CamBaseInfo.s32WorkMode with
  | .STREAM_MODEL =>
    { s with
      m_FmpegPtr := some .new
      m_RtspClientPtr := true
      m_pScheduler := true
      m_bFirstPicFlag := true }
  | .SNAPSHOT_MODEL => { s with m_ptrSnapShotThread := true }

/-- `onvif` says whether both addresses are found. -/
def OpenCamera (s : CRtspCliMng) (onvif : Bool) : CRtspCliMng := if onvif then s.SetPullStreamCB else s

def ReleaseSource (s : CRtspCliMng) : CRtspCliMng :=
  { s with m_pScheduler := false, m_RtspClientPtr := false, m_ptrSnapShotThread := false, m_FmpegPtr := none }

def RestartCam (s : CRtspCliMng) (onvif : Bool) : CRtspCliMng := (s.ReleaseSource.OpenCamera onvif).SetUpdate false

def IsTimeOut (InitTime : Int) (nTimeOut : Int) (now : Int) : Bool := nTimeOut < now - InitTime

def GetConnTimeOut (s : CRtspCliMng) (now : Int) : Bool × CRtspCliMng :=
  let bTimeOut := s.m_bReconnFlag && IsTimeOut s.m_TimeForReConn s32ReconTimeOut now
  (bTimeOut, if bTimeOut then { s with m_bReconnFlag := true } else s)

def SetConnTimeOut (s : CRtspCliMng) (now : Int) : CRtspCliMng :=
  { s with m_TimeForReConn := now, m_bReconnFlag := false }

/-- The frame gets past the checks: no update waits, SPS and PPS are there, and it is an
I-frame. -/
def processes (s : CRtspCliMng) (r : Received) : Bool :=
  !s.GetUpdate && !decide (r.pRecord.length < 2) &&
    (r.fReceiveBuffer.head? = some 0x65 || r.fReceiveBuffer.head? = some 0x25)

/-- The size of the queue is set with the first picture. -/
def sizedQueue (s : CRtspCliMng) (ffmpeg : CFFmpeg) (que : CVSQueue) : CVSQueue :=
  if s.m_bFirstPicFlag then que.SetFirstPicSize ffmpeg.GetHeight ffmpeg.GetWidth else que

/-- The manager afterwards and the picture that is pushed. There is no result when the
decoder is missing and when bytes are read that are not there. -/
def CallBackFunc (sws : SwScale) (s : CRtspCliMng) (r : Received) (now : Int) : Option (CRtspCliMng × Option Mat) :=
  if !s.processes r then some (s, none)
  else
    match s.m_VSQueWekPtr with
    | none => some (s.SetConnTimeOut now, none)
    | some que => do
      let ffmpeg ← s.m_FmpegPtr
      match ffmpeg.DecodePicture sws r.pRecord r.fReceiveBuffer r.avcodec_decode_video2 with
      | (ffmpeg, none) => some (({ s with m_FmpegPtr := some ffmpeg } : CRtspCliMng).SetConnTimeOut now, none)
      | (ffmpeg, some pPicBuffer) => do
        let (sMatObj, que) ← (s.sizedQueue ffmpeg que).Push pPicBuffer
        some (({ s with
          m_FmpegPtr := some ffmpeg
          m_bFirstPicFlag := false
          m_VSQueWekPtr := some que } : CRtspCliMng).SetConnTimeOut now, some sMatObj)

/-- The manager afterwards and whether the camera is restarted; `stepped` is the manager
as `SingleStep` leaves it, where that is called. -/
def PullStream (s stepped : CRtspCliMng) (onvif : Bool) (now : Int) : CRtspCliMng × Bool :=
  if s.GetUpdate then (s.RestartCam onvif, true)
  else if s.m_pScheduler then
    match stepped.GetConnTimeOut now with
    | (true, s) => ((s.SetUpdate true).RestartCam onvif, true)
    | (false, s) => (s, false)
  else (s, false)

end CRtspCliMng

end Perception.Rtsp
