import Perception.Lib.History
import Perception.Rtsp.RtspCliMng

/-!
# The size of the pictures

The size of a stream is kept by the decoder, its scaler, its buffer and the queue. All four
are set with the first picture, and only the decoder follows a change, of the height. So the
pictures are right as long as all frames have one size.
-/
namespace Perception.Rtsp

set_option autoImplicit false

open Perception.Lib Perception.Lib.History

/-- What happens while one decoder is in use: a frame arrives, the configuration is
updated, a task takes a picture, the queue is given up. -/
inductive PicEvent
  | received (r : Received) (now : Int)
  | updated (camBaseInfo : TCameraBaseInfo)
  | popped (QueueType : eQueueType)
  | expired

namespace CRtspCliMng

def picStep (sws : SwScale) (s : CRtspCliMng) : PicEvent → Option CRtspCliMng
  | .received r now => (s.CallBackFunc sws r now).map Prod.fst
  | .updated camBaseInfo => some (s.UpdateCamBaseInfo camBaseInfo)
  | .popped QueueType => some { s with m_VSQueWekPtr := s.m_VSQueWekPtr.map fun que => que.Pop QueueType }
  | .expired => some { s with m_VSQueWekPtr := none }

/-- The frame that the decoder finishes with an event. -/
def frameSeen (s : CRtspCliMng) : PicEvent → Option Frame
  | .received r _ =>
    if s.processes r && s.m_VSQueWekPtr.isSome then
      decodedFrame r.pRecord r.fReceiveBuffer r.avcodec_decode_video2
    else none
  | _ => none

def framesSeen (sws : SwScale) (s : CRtspCliMng) : List PicEvent → List Frame
  | [] => []
  | e :: es =>
    (s.frameSeen e).toList ++
      match s.picStep sws e with
      | none => []
      | some s' => framesSeen sws s' es

/-- The decoder answers the size of a frame, its buffer is large enough for it, and the
picture that is pushed is the frame. -/
structure Shows (sws : SwScale) (f : Frame) (s : CRtspCliMng) (sMatObj : Mat) (ffmpeg : CFFmpeg) : Prop where
  decoder : s.m_FmpegPtr = some ffmpeg
  width : ffmpeg.GetWidth = f.width
  height : ffmpeg.GetHeight = f.height
  buffer : 3 * f.width * f.height ≤ ffmpeg.m_uOBuffer.length
  picture : sMatObj = ⟨f.height, f.width, sws.bgr f⟩

/-- Every frame that is finished is shown. -/
def ShowsFrame (sws : SwScale) (s : CRtspCliMng) : PicEvent → Prop
  | .received r now =>
    ∀ f, s.frameSeen (.received r now) = some f →
      ∃ s' sMatObj ffmpeg, s.CallBackFunc sws r now = some (s', some sMatObj) ∧ Shows sws f s' sMatObj ffmpeg
  | _ => True

end CRtspCliMng

namespace CFFmpeg

/-- The decoder before its first picture, or after pictures that were all of one size. -/
inductive Sized : CFFmpeg → Option (Nat × Nat) → Prop
  | new : Sized .new none
  | seen {width height : Nat} {buf : List UInt8} (hw : 0 < width) (hbuf : buf.length = pictureSize width height) :
    Sized ⟨width, height, some (width, height), buf⟩ (some (width, height))

/-- The frame is the first one, or of the size of those before. -/
def Fits (size : Option (Nat × Nat)) (f : Frame) : Prop := ∀ wh, size = some wh → f.size = wh

/-- What a picture leaves in the decoder. -/
def shown (sws : SwScale) (f : Frame) : CFFmpeg := ⟨f.width, f.height, some f.size, sws.bgr f⟩

theorem sized_shown (sws : SwScale) (f : Frame) : Sized (shown sws f) (some f.size) :=
  .seen f.width_pos (sws.length_bgr f)

theorem decode_of_fits (sws : SwScale) {st : CFFmpeg} {size : Option (Nat × Nat)} (hst : Sized st size) {f : Frame}
    (hf : Fits size f) : ((st.setSize f).openScaler f).scale sws f = shown sws f := by
  cases hst with
  | new =>
    have hlen : (List.replicate (pictureSize f.width f.height) (0 : UInt8)).length = pictureSize f.width f.height :=
      List.length_replicate
    have hscale := sws.scale_same f _ hlen
    simp only [setSize, new, openScaler, scale, if_true, hscale, shown, Frame.size]
  | @seen width height buf hw hbuf =>
    obtain ⟨rfl, rfl⟩ : f.width = width ∧ f.height = height := Prod.mk.inj (hf _ rfl)
    have hscale := sws.scale_same f buf hbuf
    have hne : f.width ≠ 0 := Nat.ne_of_gt f.width_pos
    simp only [setSize, openScaler, scale, if_neg hne, ne_eq, not_true_eq_false, if_false, hscale, shown, Frame.size]

end CFFmpeg

namespace CRtspCliMng

open CFFmpeg (Sized Fits shown)

variable {sws : SwScale} {s s' : CRtspCliMng} {r : Received} {now : Int} {f : Frame} {size : Option (Nat × Nat)}

/-- Decoder and queue hold the same size, and the first picture is still to come when
there is none. -/
structure SizesAgree (s : CRtspCliMng) (size : Option (Nat × Nat)) : Prop where
  decoder : ∃ ffmpeg, s.m_FmpegPtr = some ffmpeg ∧ ffmpeg.Sized size
  first : s.m_bFirstPicFlag = size.isNone
  queue : ∀ que wh, s.m_VSQueWekPtr = some que → size = some wh → que.m_s32Width = wh.1 ∧ que.m_s32Height = wh.2

theorem seen_inv (h : s.frameSeen (.received r now) = some f) :
    s.processes r = true ∧ (∃ que, s.m_VSQueWekPtr = some que) ∧
      decodedFrame r.pRecord r.fReceiveBuffer r.avcodec_decode_video2 = some f := by
  rw [frameSeen] at h
  split at h
  · next hcond =>
    rw [Bool.and_eq_true] at hcond
    exact ⟨hcond.1, Option.isSome_iff_exists.mp hcond.2, h⟩
  · cases h

/-- With a frame the callback pushes what the decoder has made of it. -/
theorem callBack_of_seen (h : s.frameSeen (.received r now) = some f) {que : CVSQueue} {ffmpeg ffmpeg' : CFFmpeg}
    (hque : s.m_VSQueWekPtr = some que) (hdec : s.m_FmpegPtr = some ffmpeg)
    (hdec' : ((ffmpeg.setSize f).openScaler f).scale sws f = ffmpeg') :
    s.CallBackFunc sws r now =
      ((s.sizedQueue ffmpeg' que).Push ffmpeg'.m_uOBuffer).map fun p =>
        (({ s with
          m_FmpegPtr := some ffmpeg'
          m_bFirstPicFlag := false
          m_VSQueWekPtr := some p.2 } : CRtspCliMng).SetConnTimeOut now, some p.1) := by
  obtain ⟨hproc, -, hframe⟩ := seen_inv h
  have hpic : ffmpeg.DecodePicture sws r.pRecord r.fReceiveBuffer r.avcodec_decode_video2 =
      (ffmpeg', some ffmpeg'.m_uOBuffer) := by
    unfold CFFmpeg.DecodePicture
    rw [hframe]
    simp only [hdec']
  unfold CallBackFunc
  rw [hproc, hque, hdec]
  simp only [Bool.not_true, Bool.false_eq_true, if_false, Option.bind_eq_bind, Option.bind_some, hpic]
  cases (s.sizedQueue ffmpeg' que).Push ffmpeg'.m_uOBuffer with
  | none => rfl
  | some p => rfl

/-- Without a frame the sizes stay. -/
theorem sizesAgree_callBack_of_unseen (hs : SizesAgree s size) (h : s.frameSeen (.received r now) = none)
    {sMatObj : Option Mat} (hcb : s.CallBackFunc sws r now = some (s', sMatObj)) : SizesAgree s' size := by
  unfold CallBackFunc at hcb
  split at hcb
  · cases hcb
    exact hs
  · next hproc =>
    rw [Bool.not_eq_true', Bool.not_eq_false] at hproc
    split at hcb
    · cases hcb
      exact ⟨hs.decoder, hs.first, hs.queue⟩
    · next que hque =>
      obtain ⟨ffmpeg, hdec, hsized⟩ := hs.decoder
      have hframe : decodedFrame r.pRecord r.fReceiveBuffer r.avcodec_decode_video2 = none := by
        rw [frameSeen, hproc, hque] at h
        exact h
      have hpic : ffmpeg.DecodePicture sws r.pRecord r.fReceiveBuffer r.avcodec_decode_video2 = (ffmpeg, none) := by
        unfold CFFmpeg.DecodePicture
        rw [hframe]
      rw [hdec] at hcb
      simp only [Option.bind_eq_bind, Option.bind_some, hpic] at hcb
      cases hcb
      exact ⟨⟨ffmpeg, rfl, hsized⟩, hs.first, hs.queue⟩

theorem sizesAgree_of_unseen {e : PicEvent} (hs : SizesAgree s size) (h : s.frameSeen e = none)
    (hstep : s.picStep sws e = some s') : SizesAgree s' size := by
  cases e with
  | received r now =>
    obtain ⟨⟨s₁, sMatObj⟩, hcb, rfl⟩ := Option.map_eq_some_iff.mp hstep
    exact sizesAgree_callBack_of_unseen hs h hcb
  | updated camBaseInfo =>
    cases hstep
    exact ⟨hs.decoder, hs.first, hs.queue⟩
  | popped QueueType =>
    cases hstep
    refine ⟨hs.decoder, hs.first, fun que wh hque hsize => ?_⟩
    obtain ⟨que₀, hque₀, rfl⟩ := Option.map_eq_some_iff.mp hque
    exact hs.queue que₀ wh hque₀ hsize
  | expired =>
    cases hstep
    exact ⟨hs.decoder, hs.first, fun _ _ hque => nomatch hque⟩

/-- The queue takes its pictures in the size of the frame. -/
theorem sizedQueue_of_fits (sws : SwScale) (hs : SizesAgree s size) (hf : Fits size f) {que : CVSQueue}
    (hque : s.m_VSQueWekPtr = some que) :
    (s.sizedQueue (shown sws f) que).m_s32Width = f.width ∧ (s.sizedQueue (shown sws f) que).m_s32Height = f.height := by
  have hfirst := hs.first
  cases size with
  | none =>
    rw [Option.isNone_none] at hfirst
    rw [sizedQueue, if_pos hfirst]
    exact ⟨rfl, rfl⟩
  | some wh =>
    rw [Option.isNone_some] at hfirst
    rw [sizedQueue, hfirst]
    obtain rfl : f.size = wh := hf wh rfl
    exact hs.queue que f.size hque rfl

/-- A frame that fits is shown, and the sizes are those of the frame afterwards. -/
theorem shows_of_fits (sws : SwScale) (hs : SizesAgree s size) (h : s.frameSeen (.received r now) = some f) (hf : Fits size f) :
    ∃ s' sMatObj, s.CallBackFunc sws r now = some (s', some sMatObj) ∧ Shows sws f s' sMatObj (shown sws f) ∧
      SizesAgree s' (some f.size) := by
  obtain ⟨-, ⟨que, hque⟩, -⟩ := seen_inv h
  obtain ⟨ffmpeg, hdec, hsized⟩ := hs.decoder
  have hcb := callBack_of_seen h hque hdec (CFFmpeg.decode_of_fits sws hsized hf)
  obtain ⟨hw, hh⟩ := sizedQueue_of_fits sws hs hf hque
  have hbytes : (sws.bgr f).length = f.width * f.height * 3 := by
    rw [sws.length_bgr, pictureSize, Nat.mul_assoc, Nat.mul_comm]
  have hpush : (s.sizedQueue (shown sws f) que).Push (shown sws f).m_uOBuffer =
      some (⟨f.height, f.width, sws.bgr f⟩, (s.sizedQueue (shown sws f) que).push_back ⟨f.height, f.width, sws.bgr f⟩) := by
    unfold CVSQueue.Push CVSQueue.srcMat
    rw [hw, hh]
    simp only [shown, ← hbytes, Nat.le_refl, if_true, List.take_length, Option.map_some]
  rw [hpush, Option.map_some] at hcb
  refine ⟨_, _, hcb, ⟨rfl, rfl, rfl, ?_, rfl⟩, ⟨⟨shown sws f, rfl, CFFmpeg.sized_shown sws f⟩, rfl, ?_⟩⟩
  · exact Nat.le_of_eq (sws.length_bgr f).symm
  · intro que' wh hque' hsize
    cases hque'
    cases hsize
    exact ⟨hw, hh⟩

/-- A frame of another size is pushed in the size of those before. -/
theorem not_shows_of_not_fits (hs : SizesAgree s size) (h : s.frameSeen (.received r now) = some f)
    (hf : ¬ Fits size f) : ¬ s.ShowsFrame sws (.received r now) := by
  intro hshow
  obtain ⟨s', sMatObj, ffmpeg', hcb, hshows⟩ := hshow f h
  obtain ⟨-, ⟨que, hque⟩, -⟩ := seen_inv h
  obtain ⟨ffmpeg, hdec, -⟩ := hs.decoder
  rw [callBack_of_seen h hque hdec rfl] at hcb
  obtain ⟨⟨mat, que'⟩, hpush, heq⟩ := Option.map_eq_some_iff.mp hcb
  cases heq
  apply hf
  intro wh hwh
  have hfirst : s.m_bFirstPicFlag = false := by
    rw [hs.first, hwh]
    rfl
  obtain ⟨hw, hh⟩ := hs.queue que wh hque hwh
  obtain ⟨hrows, hcols⟩ := CVSQueue.size_of_Push hpush
  have hpic : mat = ⟨f.height, f.width, sws.bgr f⟩ := hshows.picture
  rw [sizedQueue, hfirst, hpic] at hrows hcols
  exact Prod.ext (hcols.trans hw) (hrows.trans hh)

/-- All frames are of one size, the one that is set if there is one. -/
structure AllFit (size : Option (Nat × Nat)) (fs : List Frame) : Prop where
  one : ∀ f ∈ fs, ∀ f' ∈ fs, f.size = f'.size
  fits : ∀ f ∈ fs, Fits size f

theorem allFit_nil : AllFit size [] where
  one := fun _ h => absurd h List.not_mem_nil
  fits := fun _ h => absurd h List.not_mem_nil

theorem allFit_cons {fs : List Frame} (hf : Fits size f) : AllFit size (f :: fs) ↔ AllFit (some f.size) fs := by
  constructor
  · intro h
    constructor
    · intro g hg g' hg'
      exact h.one g (List.mem_cons_of_mem f hg) g' (List.mem_cons_of_mem f hg')
    · intro g hg wh hwh
      cases hwh
      exact h.one g (List.mem_cons_of_mem f hg) f List.mem_cons_self
  · intro h
    have hsize : ∀ g ∈ f :: fs, g.size = f.size := by
      intro g hg
      rcases List.mem_cons.mp hg with rfl | hg
      · rfl
      · exact h.fits g hg f.size rfl
    constructor
    · intro g hg g' hg'
      exact (hsize g hg).trans (hsize g' hg').symm
    · intro g hg wh hwh
      exact (hsize g hg).trans (hf wh hwh)

theorem framesSeen_cons_of_step {e : PicEvent} {es : List PicEvent} (h : s.picStep sws e = some s') :
    s.framesSeen sws (e :: es) = (s.frameSeen e).toList ++ s'.framesSeen sws es := by
  rw [framesSeen, h]

theorem showsFrame_of_unseen {e : PicEvent} (h : s.frameSeen e = none) : s.ShowsFrame sws e := by
  cases e with
  | received r now =>
    intro f hf
    rw [h] at hf
    cases hf
  | updated camBaseInfo => trivial
  | popped QueueType => trivial
  | expired => trivial

theorem received_of_seen {e : PicEvent} (h : s.frameSeen e = some f) : ∃ r now, e = .received r now := by
  cases e with
  | received r now => exact ⟨r, now, rfl⟩
  | updated camBaseInfo => cases h
  | popped QueueType => cases h
  | expired => cases h

theorem eachStep_shows_iff (es : List PicEvent) (hs : SizesAgree s size) :
    EachStep (picStep sws) (ShowsFrame sws) s es ↔ AllFit size (s.framesSeen sws es) := by
  induction es generalizing s size with
  | nil =>
    exact iff_of_true eachStep_nil allFit_nil
  | cons e es ih =>
    cases hseen : s.frameSeen e with
    | none =>
      rw [eachStep_cons, framesSeen, hseen]
      cases hstep : s.picStep sws e with
      | none =>
        exact iff_of_true ⟨showsFrame_of_unseen hseen, fun _ h => nomatch h⟩ allFit_nil
      | some s' =>
        have hrest := ih (sizesAgree_of_unseen hs hseen hstep)
        simp only [showsFrame_of_unseen hseen, true_and, Option.some.injEq, forall_eq', Option.toList_none,
          List.nil_append]
        exact hrest
    | some f =>
      obtain ⟨r, now, rfl⟩ := received_of_seen hseen
      by_cases hf : Fits size f
      · obtain ⟨s', sMatObj, hcb, hshows, hs'⟩ := shows_of_fits sws hs hseen hf
        have hstep : s.picStep sws (.received r now) = some s' := by rw [picStep, hcb, Option.map_some]
        have hnow : s.ShowsFrame sws (.received r now) := by
          intro f' hf'
          rw [hseen] at hf'
          cases hf'
          exact ⟨s', sMatObj, _, hcb, hshows⟩
        rw [eachStep_cons_of_step hstep, framesSeen_cons_of_step hstep, hseen, ih hs']
        exact (and_iff_right hnow).trans (allFit_cons hf).symm
      · refine iff_of_false (fun h => ?_) fun h => ?_
        · exact not_shows_of_not_fits hs hseen hf (eachStep_cons.mp h).1
        · refine hf (h.fits f ?_)
          rw [framesSeen, hseen]
          exact List.mem_append_left _ List.mem_cons_self

theorem sizesAgree_opened (s : CRtspCliMng) (h : s.m_CamBaseInfo.s32WorkMode = .STREAM_MODEL) :
    SizesAgree s.SetPullStreamCB none := by
  unfold SetPullStreamCB
  rw [h]
  exact ⟨⟨.new, rfl, .new⟩, rfl, fun _ _ _ hsize => nomatch hsize⟩

/-- From the opening of a camera on, every frame is shown in its size exactly when all
frames have one size. -/
theorem shows_iff_one_size (sws : SwScale) (s : CRtspCliMng) (h : s.m_CamBaseInfo.s32WorkMode = .STREAM_MODEL)
    (es : List PicEvent) :
    EachStep (picStep sws) (ShowsFrame sws) s.SetPullStreamCB es ↔
      ∀ f ∈ s.SetPullStreamCB.framesSeen sws es, ∀ f' ∈ s.SetPullStreamCB.framesSeen sws es, f.size = f'.size := by
  rw [eachStep_shows_iff es (sizesAgree_opened s h)]
  constructor
  · intro hall
    exact hall.one
  · intro hone
    exact ⟨hone, fun _ _ _ hsize => nomatch hsize⟩

/-- An I-frame that the decoder makes a black picture of. -/
def blackFrame (width height : Nat) (hw : 0 < width) (hh : 0 < height) : PicEvent :=
  .received ⟨[[0x67], [0x68]], 0x65 :: List.replicate 20 0, fun _ => some ⟨width, height,
    List.replicate (width * height) 16 ++ List.replicate (width * height / 2) 128, hw, hh⟩⟩ 0

def streamMng : CRtspCliMng := .new ⟨.STREAM_MODEL, false⟩ (some ⟨0, 0, fun _ => []⟩) 0

theorem shows_iff_one_size_black :
    EachStep (picStep .black) (ShowsFrame .black) streamMng.SetPullStreamCB
      [blackFrame 4 2 (by decide) (by decide), blackFrame 4 2 (by decide) (by decide)] := by
  apply (shows_iff_one_size .black streamMng rfl _).mpr
  intro f hf f' hf'
  have hsize : ∀ g ∈ streamMng.SetPullStreamCB.framesSeen .black
      [blackFrame 4 2 (by decide) (by decide), blackFrame 4 2 (by decide) (by decide)], g.size = (4, 2) := by
    decide
  rw [hsize f hf, hsize f' hf']

/-- The stream gets wider, and the decoder keeps its width. -/
theorem not_shows_wider :
    ¬ EachStep (picStep .black) (ShowsFrame .black) streamMng.SetPullStreamCB
      [blackFrame 4 2 (by decide) (by decide), blackFrame 6 2 (by decide) (by decide)] := by
  intro h
  have hall := ((eachStep_shows_iff _ (sizesAgree_opened streamMng rfl)).mp h).one
  revert hall
  decide

end CRtspCliMng

end Perception.Rtsp
