import Mathlib.Data.List.Basic

/-!
# Decoder and picture queue

`CFFmpeg::DecodePicture` decodes an I-frame and converts it into a buffer that it keeps, and
`CVSQueue::Push` copies the buffer into a picture for the tasks. The decoder and the scaler
are those of a library: a decoder is what it makes of a packet, and of the scaler only what
it writes in a context of the right size is known.
-/
namespace Perception.Rtsp

set_option autoImplicit false

/-- A picture that the decoder has finished; its context has the size of the picture. -/
structure Frame where
  width : Nat
  height : Nat
  data : List UInt8
  width_pos : 0 < width
  height_pos : 0 < height
  deriving DecidableEq

def Frame.size (f : Frame) : Nat × Nat := (f.width, f.height)

/-- `avpicture_get_size` for `AV_PIX_FMT_BGR24`. -/
def pictureSize (width height : Nat) : Nat := 3 * width * height

/-- The scaler. A context converts pictures of one size to BGR24 of that size. -/
structure SwScale where
  bgr : Frame → List UInt8
  /-- What a buffer holds after `sws_scale` in a context for `width` and `height`. -/
  sws_scale : (width height : Nat) → Frame → List UInt8 → List UInt8
  length_scale : ∀ width height f dst, (sws_scale width height f dst).length = dst.length
  scale_same : ∀ f dst, dst.length = pictureSize f.width f.height → sws_scale f.width f.height f dst = bgr f

theorem SwScale.length_bgr (sws : SwScale) (f : Frame) : (sws.bgr f).length = pictureSize f.width f.height := by
  have hdst : (List.replicate (pictureSize f.width f.height) (0 : UInt8)).length = pictureSize f.width f.height :=
    List.length_replicate
  rw [← sws.scale_same f _ hdst, sws.length_scale, hdst]

/-- Black pictures; in a context of another size nothing is written. -/
def scaleBlack (width height : Nat) (f : Frame) (dst : List UInt8) : List UInt8 :=
  if f.size = (width, height) then List.replicate dst.length 0 else dst

theorem length_scaleBlack (width height : Nat) (f : Frame) (dst : List UInt8) :
    (scaleBlack width height f dst).length = dst.length := by
  unfold scaleBlack
  split
  · exact List.length_replicate
  · rfl

theorem scaleBlack_same (f : Frame) (dst : List UInt8) (hdst : dst.length = pictureSize f.width f.height) :
    scaleBlack f.width f.height f dst = List.replicate (pictureSize f.width f.height) 0 := by
  have hsize : f.size = (f.width, f.height) := rfl
  rw [scaleBlack, if_pos hsize, hdst]

/-- A scaler for black pictures. -/
def SwScale.black : SwScale where
  bgr f := List.replicate (pictureSize f.width f.height) 0
  sws_scale := scaleBlack
  length_scale := length_scaleBlack
  scale_same := scaleBlack_same

structure CFFmpeg where
  m_nWidth : Nat
  m_nHeight : Nat
  /-- The size that the context is made for, once there is one. -/
  m_pSwsContext : Option (Nat × Nat)
  /-- Empty when it is null. -/
  m_uOBuffer : List UInt8
  deriving DecidableEq

def nalu_header : List UInt8 := [0x00, 0x00, 0x00, 0x01]

/-- The picture, if the decoder finishes one. Without SPS and PPS, and for a frame of 20
bytes or less, it is not asked. -/
def decodedFrame (pRecord : List (List UInt8)) (frameBuffer : List UInt8)
    (avcodec_decode_video2 : List UInt8 → Option Frame) : Option Frame :=
  match pRecord with
  | sPropBytes :: pPropBytes :: _ =>
    if sPropBytes.isEmpty || pPropBytes.isEmpty || frameBuffer.length ≤ 20 then none
    else
      avcodec_decode_video2
        (nalu_header ++ sPropBytes ++ nalu_header ++ pPropBytes ++ nalu_header ++ frameBuffer)
  | _ => none

namespace CFFmpeg

def new : CFFmpeg := ⟨0, 0, none, []⟩

def GetWidth (st : CFFmpeg) : Nat := st.m_nWidth

def GetHeight (st : CFFmpeg) : Nat := st.m_nHeight

/-- The size with the first picture, and with a change of the height. The width then
becomes the height. -/
def setSize (st : CFFmpeg) (f : Frame) : CFFmpeg :=
  if st.m_nWidth = 0 then { st with m_nWidth := f.width, m_nHeight := f.height }
  else if st.m_nHeight ≠ f.height then { st with m_nHeight := f.height, m_nWidth := f.height }
  else st

/-- The context and the buffer, which are made once. -/
def openScaler (st : CFFmpeg) (f : Frame) : CFFmpeg :=
  match st.m_pSwsContext with
  | none =>
    { st with
      m_pSwsContext := some (f.width, f.height)
      m_uOBuffer := List.replicate (pictureSize f.width f.height) 0 }
  | some _ => st

def scale (sws : SwScale) (st : CFFmpeg) (f : Frame) : CFFmpeg :=
  match st.m_pSwsContext with
  | none => st
  | some (width, height) => { st with m_uOBuffer := sws.sws_scale width height f st.m_uOBuffer }

/-- The decoder afterwards, and the buffer when there is a picture. -/
def DecodePicture (sws : SwScale) (st : CFFmpeg) (pRecord : List (List UInt8)) (frameBuffer : List UInt8)
    (avcodec_decode_video2 : List UInt8 → Option Frame) : CFFmpeg × Option (List UInt8) :=
  match decodedFrame pRecord frameBuffer avcodec_decode_video2 with
  | none => (st, none)
  | some f =>
    let st := ((st.setSize f).openScaler f).scale sws f
    (st, some st.m_uOBuffer)

end CFFmpeg

inductive eQueueType
  | FaceQueue
  | ActQueue
  | SelfDefActQueue
  deriving DecidableEq

/-- A picture of three bytes for each point. -/
structure Mat where
  rows : Nat
  cols : Nat
  data : List UInt8
  deriving DecidableEq

structure CVSQueue where
  m_s32Height : Nat
  m_s32Width : Nat
  m_VideoStreamQue : eQueueType → List Mat

namespace CVSQueue

def gTaskQueueCapacity : Nat := 2

def SetFirstPicSize (que : CVSQueue) (s32Height s32Width : Nat) : CVSQueue :=
  { que with m_s32Height := s32Height, m_s32Width := s32Width }

/-- The picture that is made of the bytes; none when they are read past their end. -/
def srcMat (que : CVSQueue) (src : List UInt8) : Option Mat :=
  let size := que.m_s32Width * que.m_s32Height * 3
  if size ≤ src.length then some ⟨que.m_s32Height, que.m_s32Width, src.take size⟩ else none

/-- The picture is given to the tasks whose queue is not full. -/
def push_back (que : CVSQueue) (sMatObj : Mat) : CVSQueue :=
  { que with
    m_VideoStreamQue := fun type =>
      if (que.m_VideoStreamQue type).length < gTaskQueueCapacity then que.m_VideoStreamQue type ++ [sMatObj]
      else que.m_VideoStreamQue type }

/-- The picture that is pushed, and the queue with it. -/
def Push (que : CVSQueue) (src : List UInt8) : Option (Mat × CVSQueue) :=
  (que.srcMat src).map fun sMatObj => (sMatObj, que.push_back sMatObj)

theorem size_of_Push {que que' : CVSQueue} {src : List UInt8} {sMatObj : Mat}
    (h : que.Push src = some (sMatObj, que')) : sMatObj.rows = que.m_s32Height ∧ sMatObj.cols = que.m_s32Width := by
  obtain ⟨mat, hmat, heq⟩ := Option.map_eq_some_iff.mp h
  cases heq
  simp only [srcMat] at hmat
  split at hmat
  · obtain rfl := Option.some.inj hmat
    exact ⟨rfl, rfl⟩
  · exact absurd hmat (by simp)

def Pop (que : CVSQueue) (QueueType : eQueueType) : CVSQueue :=
  { que with
    m_VideoStreamQue := fun type =>
      if type = QueueType then (que.m_VideoStreamQue type).tail else que.m_VideoStreamQue type }

end CVSQueue

end Perception.Rtsp
