import Perception.Lib.Framing
import Perception.Net.Frame

/-!
# The deframer is the framing automaton

`UnDataPkg` keeps its pending input in the receive buffer and the head flag. Read as
the pending input of the framing automaton, a call feeds the chunk to the automaton
and handles the frames it recognises, one after the other. The clearing of an
over-long buffer at the entry of a call is the only other thing that happens, and it
is kept in the statement.
-/
namespace Perception.Net

set_option autoImplicit false

open Perception.Lib Perception.Buf

/-- The automaton with the flags of the protocol. -/
abbrev scan : Option (List UInt8) → List UInt8 → List (List UInt8) × Option (List UInt8) :=
  Framing.scan cHeadFlag cTailFlag

abbrev IsFrame : List UInt8 → Prop := Framing.IsFrame cHeadFlag cTailFlag

abbrev IsPartial : List UInt8 → Prop := Framing.IsPartial cHeadFlag cTailFlag

/-- A chunk of an admissible size. -/
structure IsChunk (chunk : List UInt8) : Prop where
  pos : 0 < chunk.length
  le : chunk.length ≤ nMaxPkgLen

theorem head_ne_tail : cHeadFlag ≠ cTailFlag := by decide

namespace NetTcpDataPkg

/-- The pending input that the object holds. -/
def pending (d : NetTcpDataPkg) : Option (List UInt8) :=
  if d.m_bHaveHead then some d.m_receive_buffer else none

def setBuffer (b : List UInt8) (h : Bool) (d : NetTcpDataPkg) : NetTcpDataPkg :=
  { d with m_receive_buffer := b, m_bHaveHead := h }

def withPending (pend : Option (List UInt8)) (d : NetTcpDataPkg) : NetTcpDataPkg :=
  d.setBuffer (pend.getD []) pend.isSome

/-- Handle frames in order. -/
def receiveFrames (d : NetTcpDataPkg) (fs : List (List UInt8)) : Traced Event NetTcpDataPkg :=
  fs.foldlM receiveFrame d

/-- Feed bytes to the automaton from a given pending input and handle its frames. -/
def feedFrom (pend : Option (List UInt8)) (d : NetTcpDataPkg) (s : List UInt8) :
    Traced Event NetTcpDataPkg :=
  (d.receiveFrames (scan pend s).1).mapVal (withPending (scan pend s).2)

def feed (d : NetTcpDataPkg) (s : List UInt8) : Traced Event NetTcpDataPkg := feedFrom d.pending d s

/-- The clearing of an over-long buffer at the entry of `UnDataPkg`. -/
def clip (d : NetTcpDataPkg) : NetTcpDataPkg :=
  if nMaxRecCache < d.m_receive_buffer.length then d.setBuffer [] d.m_bHaveHead else d

/-- Between two calls: no bytes are kept while hunting, and a kept frame has no tail. -/
structure Settled (d : NetTcpDataPkg) : Prop where
  hunting : d.m_bHaveHead = false → d.m_receive_buffer = []
  no_tail : cTailFlag ∉ d.m_receive_buffer

theorem settled_new (srv cli : String) : (new srv cli).Settled := by
  constructor <;> simp [new]

theorem settled_clip {d : NetTcpDataPkg} (h : d.Settled) : d.clip.Settled := by
  unfold clip
  split
  · exact ⟨fun _ => rfl, List.not_mem_nil⟩
  · exact h

@[simp] theorem withPending_buffer (d : NetTcpDataPkg) (p : Option (List UInt8)) :
    (d.withPending p).m_receive_buffer = p.getD [] := rfl

@[simp] theorem withPending_bHaveHead (d : NetTcpDataPkg) (p : Option (List UInt8)) :
    (d.withPending p).m_bHaveHead = p.isSome := rfl

@[simp] theorem setBuffer_buffer (d : NetTcpDataPkg) (b : List UInt8) (h : Bool) :
    (d.setBuffer b h).m_receive_buffer = b := rfl

@[simp] theorem setBuffer_bHaveHead (d : NetTcpDataPkg) (b : List UInt8) (h : Bool) :
    (d.setBuffer b h).m_bHaveHead = h := rfl

theorem setBuffer_setBuffer (d : NetTcpDataPkg) (b b' : List UInt8) (h h' : Bool) :
    (d.setBuffer b h).setBuffer b' h' = d.setBuffer b' h' := rfl

theorem received_setBuffer (d : NetTcpDataPkg) (f b : List UInt8) (h : Bool) :
    (d.setBuffer b h).received f = (d.received f).setBuffer b h := by
  unfold received
  split <;> rfl

theorem receiveFrame_setBuffer (d : NetTcpDataPkg) (f b : List UInt8) (h : Bool) :
    (d.setBuffer b h).receiveFrame f = (d.receiveFrame f).mapVal (setBuffer b h) := by
  unfold receiveFrame
  rw [received_setBuffer]
  by_cases hf : FrameFits f <;> simp [hf, Traced.mapVal, setBuffer]

theorem receiveFrames_cons (d : NetTcpDataPkg) (f : List UInt8) (fs : List (List UInt8)) :
    d.receiveFrames (f :: fs) = d.receiveFrame f >>= fun d' => d'.receiveFrames fs := by
  rw [receiveFrames, List.foldlM_cons]
  rfl

theorem receiveFrames_setBuffer (fs : List (List UInt8)) (d : NetTcpDataPkg) (b : List UInt8) (h : Bool) :
    (d.setBuffer b h).receiveFrames fs = (d.receiveFrames fs).mapVal (setBuffer b h) := by
  induction fs generalizing d with
  | nil => rfl
  | cons f fs ih =>
    rw [receiveFrames_cons, receiveFrames_cons, receiveFrame_setBuffer, Traced.mapVal_eq_bind,
      Traced.mapVal_eq_bind, bind_assoc, bind_assoc]
    congr 1
    funext d'
    rw [pure_bind, ih, Traced.mapVal_eq_bind]

/-- Feeding overwrites the stored input, so it may start from any buffer. -/
theorem feedFrom_setBuffer (pend : Option (List UInt8)) (d : NetTcpDataPkg) (b : List UInt8) (h : Bool)
    (s : List UInt8) : feedFrom pend (d.setBuffer b h) s = feedFrom pend d s := by
  rw [feedFrom, feedFrom, receiveFrames_setBuffer, Traced.mapVal, Traced.mapVal, Traced.mapVal,
    Option.map_map]
  rfl

/-- A frame recognised first is handled first. -/
theorem feedFrom_frame {pend pend' : Option (List UInt8)} {s s' f : List UInt8}
    (hs : scan pend s = (f :: (scan pend' s').1, (scan pend' s').2)) (d : NetTcpDataPkg) :
    feedFrom pend d s = d.receiveFrame f >>= fun d' => feedFrom pend' d' s' := by
  rw [feedFrom, hs, receiveFrames_cons, Traced.mapVal_eq_bind, bind_assoc]
  congr 1
  funext d'
  rw [feedFrom, Traced.mapVal_eq_bind]

theorem receiveFrame_val {d d' : NetTcpDataPkg} {f : List UInt8}
    (h : (d.receiveFrame f).val = some d') : FrameFits f ∧ d' = d.received f := by
  simp only [receiveFrame, Option.ite_none_right_eq_some, Option.some.injEq] at h
  exact ⟨h.1, h.2.symm⟩

@[simp] theorem received_buffer (d : NetTcpDataPkg) (f : List UInt8) :
    (d.received f).m_receive_buffer = d.m_receive_buffer := by
  unfold received
  split <;> rfl

@[simp] theorem received_originalDataLen (d : NetTcpDataPkg) (f : List UInt8) :
    (d.received f).m_nOriginalDataLen = f.length := by
  unfold received
  split <;> rfl

@[simp] theorem received_serverFlag (d : NetTcpDataPkg) (f : List UInt8) :
    (d.received f).m_strServerFlag = d.m_strServerFlag := by
  unfold received
  split <;> rfl

@[simp] theorem received_cliFlag (d : NetTcpDataPkg) (f : List UInt8) :
    (d.received f).m_strCliFlag = d.m_strCliFlag := by
  unfold received
  split <;> rfl

/-- One turn with the head flag set: without a tail the loop ends, else the first frame
is handled and the rest of the buffer is scanned afresh. -/
theorem loop_of_head {fuel : Nat} {d : NetTcpDataPkg} (hh : d.m_bHaveHead = true)
    (ih : ∀ d' : NetTcpDataPkg, d'.m_bHaveHead = false →
      d'.m_receive_buffer.length < d.m_receive_buffer.length →
      ReadWholePkgLoop fuel d' = feedFrom none d' d'.m_receive_buffer) :
    ReadWholePkgLoop (fuel + 1) d = feedFrom (some []) d d.m_receive_buffer := by
  unfold ReadWholePkgLoop
  simp only [hh, if_true]
  cases hf : SmartBuffer.find d.m_receive_buffer cTailFlag with
  | none =>
    have hno := SmartBuffer.find_eq_none.mp hf
    have hs : scan (some []) d.m_receive_buffer = ([], some d.m_receive_buffer) :=
      Framing.scan_some_of_not_mem _ _ hno []
    have hd : d.withPending (some d.m_receive_buffer) = d := by
      cases d
      simp_all [withPending, setBuffer]
    rw [feedFrom, hs]
    exact congrArg pure hd.symm
  | some i =>
    obtain ⟨body, rest, hbuf, rfl, hno⟩ := SmartBuffer.find_eq_some hf
    have hs : scan (some []) d.m_receive_buffer =
        ((body ++ [cTailFlag]) :: (scan none rest).1, (scan none rest).2) := by
      rw [hbuf]
      exact Framing.scan_some_tail _ _ hno [] rest
    have htr : SmartBuffer.truncate d.m_receive_buffer (body ++ [cTailFlag]).length = rest := by
      have hsplit : d.m_receive_buffer = (body ++ [cTailFlag]) ++ rest := by simp [hbuf]
      rw [hsplit]
      exact SmartBuffer.truncate_append (body ++ [cTailFlag]) rest
    dsimp only
    rw [feedFrom_frame hs, HandlePkg_eq d hbuf]
    apply Traced.bind_congr_val
    intro d' hd'
    obtain ⟨_, rfl⟩ := receiveFrame_val hd'
    have htr' : SmartBuffer.truncate (d.received (body ++ [cTailFlag])).m_receive_buffer
        (d.received (body ++ [cTailFlag])).m_nOriginalDataLen = rest := by
      rw [received_buffer, received_originalDataLen, htr]
    rw [htr']
    have hrest := ih ((d.received (body ++ [cTailFlag])).setBuffer rest false) rfl (by
      simp [setBuffer, hbuf]; omega)
    rw [feedFrom_setBuffer] at hrest
    exact hrest

/-- `ReadPkgHead` drops the bytes before the first head, or everything. -/
theorem ReadPkgHead_cases (d : NetTcpDataPkg) :
    (d.ReadPkgHead = (false, d.setBuffer [] false) ∧ scan none d.m_receive_buffer = ([], none)) ∨
    ∃ pre post, d.m_receive_buffer = pre ++ cHeadFlag :: post ∧
      d.ReadPkgHead = (true, d.setBuffer (cHeadFlag :: post) true) ∧
      scan none d.m_receive_buffer = scan (some []) (cHeadFlag :: post) := by
  cases hfind : SmartBuffer.find d.m_receive_buffer cHeadFlag with
  | none =>
    have hno := SmartBuffer.find_eq_none.mp hfind
    refine Or.inl ⟨?_, Framing.scan_none_of_not_mem _ _ hno⟩
    simp only [ReadPkgHead, hfind]
    rfl
  | some i =>
    obtain ⟨pre, post, hbuf, rfl, hno⟩ := SmartBuffer.find_eq_some hfind
    refine Or.inr ⟨pre, post, hbuf, ?_, ?_⟩
    · have htr : (if 0 < pre.length then SmartBuffer.truncate d.m_receive_buffer pre.length
          else d.m_receive_buffer) = cHeadFlag :: post := by
        rw [hbuf, SmartBuffer.truncate_append]
        cases pre with
        | nil => rfl
        | cons x xs => simp
      simp only [ReadPkgHead, hfind, htr]
      rfl
    · rw [hbuf, scan, Framing.scan_none_skip _ _ hno, Framing.scan_none_head, Framing.scan_cons,
        Framing.push, if_neg head_ne_tail]
      simp

/-- The loop scans the buffer: from a fresh hunt, or as the inside of a frame when the
head flag is set. The induction is on the fuel, which bounds the buffer's length. -/
theorem loop_eq (fuel : Nat) (d : NetTcpDataPkg) (hf : d.m_receive_buffer.length < fuel) :
    ReadWholePkgLoop fuel d =
      feedFrom (if d.m_bHaveHead then some [] else none) d d.m_receive_buffer := by
  induction fuel generalizing d with
  | zero => omega
  | succ fuel ih =>
    have hnext : ∀ {n : Nat} (d' : NetTcpDataPkg), n ≤ fuel → d'.m_bHaveHead = false →
        d'.m_receive_buffer.length < n →
        ReadWholePkgLoop fuel d' = feedFrom none d' d'.m_receive_buffer := by
      intro n d' hn hh hl
      have h := ih d' (by omega)
      simpa only [hh, Bool.false_eq_true, if_false] using h
    cases hh : d.m_bHaveHead with
    | true => exact loop_of_head hh (fun d' => hnext d' (by omega))
    | false =>
      simp only [Bool.false_eq_true, if_false]
      rcases d.ReadPkgHead_cases with ⟨hr, hs⟩ | ⟨pre, post, hbuf, hr, hs⟩
      · rw [feedFrom, hs]
        simp only [ReadWholePkgLoop, hh, hr]
        rfl
      · have hlen : (cHeadFlag :: post).length ≤ fuel := by
          rw [hbuf] at hf
          simp only [List.length_append, List.length_cons] at hf ⊢
          omega
        have hloop : ReadWholePkgLoop (fuel + 1) (d.setBuffer (cHeadFlag :: post) true) = _ :=
          loop_of_head rfl (fun d' => hnext d' hlen)
        have hturn : ReadWholePkgLoop (fuel + 1) d =
            ReadWholePkgLoop (fuel + 1) (d.setBuffer (cHeadFlag :: post) true) := by
          simp only [ReadWholePkgLoop, hh, hr]
          rfl
        rw [hturn, hloop, feedFrom_setBuffer, feedFrom, feedFrom, hs]
        rfl

theorem ReadWholePkg_eq (d : NetTcpDataPkg) :
    d.ReadWholePkg = feedFrom (if d.m_bHaveHead then some [] else none) d d.m_receive_buffer :=
  loop_eq _ d (Nat.lt_succ_self _)

/-- A settled object scans its buffer and the chunk as it scans the chunk. -/
theorem scan_settled {d : NetTcpDataPkg} (hd : d.Settled) (chunk : List UInt8) :
    scan (if d.m_bHaveHead then some [] else none) (d.m_receive_buffer ++ chunk) =
      scan d.pending chunk := by
  cases hh : d.m_bHaveHead with
  | false => simp [hd.hunting hh, pending, hh]
  | true =>
    simp only [if_true, pending, hh]
    rw [scan, Framing.scan_append, Framing.scan_some_of_not_mem _ _ hd.no_tail]
    simp

/-- **A call of `UnDataPkg` feeds its chunk to the automaton**, after the clearing of an
over-long buffer. -/
theorem UnDataPkg_eq {d : NetTcpDataPkg} (hd : d.Settled) {chunk : List UInt8} (hc : IsChunk chunk) :
    d.UnDataPkg chunk = (d.clip.feed chunk).mapVal (fun d' => (true, d')) := by
  have hd1 : ({ d with m_receive_buffer :=
      (if nMaxRecCache < d.m_receive_buffer.length then [] else d.m_receive_buffer) ++ chunk } :
      NetTcpDataPkg) = d.clip.setBuffer (d.clip.m_receive_buffer ++ chunk) d.clip.m_bHaveHead := by
    unfold clip
    split <;> rfl
  have hfeed : feedFrom (if d.clip.m_bHaveHead then some [] else none) d.clip
      (d.clip.m_receive_buffer ++ chunk) = d.clip.feed chunk := by
    rw [feed, feedFrom, feedFrom, scan_settled (settled_clip hd)]
  have hdh : d.m_bHaveHead = d.clip.m_bHaveHead := by
    unfold clip
    split <;> rfl
  have hlen : ¬ (chunk.length = 0 ∨ nMaxPkgLen < chunk.length) := by
    have h0 := hc.pos
    have hmax := hc.le
    omega
  unfold UnDataPkg
  rw [if_neg hlen]
  simp only [hd1]
  simp only [hdh]
  generalize d.clip = c at hfeed ⊢
  rw [← hfeed, Traced.mapVal_eq_bind]
  cases hh : c.m_bHaveHead with
  | true =>
    have hread : (c.setBuffer (c.m_receive_buffer ++ chunk) true).ReadWholePkg =
        feedFrom (some []) c (c.m_receive_buffer ++ chunk) :=
      (ReadWholePkg_eq _).trans (feedFrom_setBuffer _ c _ _ _)
    simp only [Bool.not_true, Bool.false_eq_true, if_false, if_true, hread]
  | false =>
    simp only [Bool.not_false, Bool.false_eq_true, if_false, if_true]
    rcases (c.setBuffer (c.m_receive_buffer ++ chunk) false).ReadPkgHead_cases with
      ⟨hr, hs⟩ | ⟨pre, post, hbuf, hr, hs⟩
    · rw [setBuffer_buffer] at hs
      rw [hr, feedFrom, hs]
      rfl
    · have hread : ((c.setBuffer (c.m_receive_buffer ++ chunk) false).setBuffer
          (cHeadFlag :: post) true).ReadWholePkg = feedFrom none c (c.m_receive_buffer ++ chunk) := by
        rw [ReadWholePkg_eq, setBuffer_setBuffer, feedFrom_setBuffer, feedFrom, feedFrom]
        rw [setBuffer_buffer] at hs
        simp only [setBuffer_bHaveHead, setBuffer_buffer, if_true, hs]
      rw [hr]
      simp only [if_true, hread]

/-- The callbacks that frames lead to, in order. -/
def frameCallbacks (srv cli : String) (fs : List (List UInt8)) : List Callback :=
  (fs.filter (fun f => Dispatched f)).map (fun f => contentCallback srv cli (frameContent f))

theorem frameCallbacks_cons (srv cli : String) (f : List UInt8) (fs : List (List UInt8)) :
    frameCallbacks srv cli (f :: fs) =
      (if Dispatched f then [contentCallback srv cli (frameContent f)] else []) ++
        frameCallbacks srv cli fs := by
  by_cases hf : Dispatched f <;> simp [frameCallbacks, hf]

theorem mem_frameCallbacks {srv cli : String} {fs : List (List UInt8)} {cb : Callback} :
    cb ∈ frameCallbacks srv cli fs ↔
      ∃ f ∈ fs, Dispatched f ∧ cb = contentCallback srv cli (frameContent f) := by
  simp only [frameCallbacks, List.mem_map, List.mem_filter, decide_eq_true_eq, and_assoc,
    eq_comm (a := cb)]

theorem callbacks_flatMap_frameEvents (srv cli : String) (fs : List (List UInt8)) :
    callbacks (fs.flatMap (frameEvents srv cli)) = frameCallbacks srv cli fs := by
  induction fs with
  | nil => rfl
  | cons f fs ih =>
    rw [List.flatMap_cons, callbacks_append, callbacks_frameEvents, ih, frameCallbacks_cons]

/-- Frames that fit are all handled. -/
theorem receiveFrames_fit {fs : List (List UInt8)} (hfit : ∀ f ∈ fs, FrameFits f) (d : NetTcpDataPkg) :
    (d.receiveFrames fs).log = fs.flatMap (frameEvents d.m_strServerFlag d.m_strCliFlag) ∧
      ∃ d', (d.receiveFrames fs).val = some d' ∧
        d'.m_strServerFlag = d.m_strServerFlag ∧ d'.m_strCliFlag = d.m_strCliFlag := by
  refine Traced.foldlM_of_step fs (fun s hs f hf => ?_) d ⟨rfl, rfl⟩
  refine ⟨?_, s.received f, ?_, ?_, ?_⟩
  · rw [← hs.1, ← hs.2]
    rfl
  · exact if_pos (hfit f hf)
  · rw [received_serverFlag, hs.1]
  · rw [received_cliFlag, hs.2]

/-- A frame inside at most `nMaxPkgLen` bytes fits. -/
theorem frameFits_of_length {f : List UInt8} (h : f.length ≤ nMaxPkgLen) : FrameFits f := by
  have hle := frameContent_length_le f
  exact Or.inr (by omega)

theorem scan_fits {pend : Option (List UInt8)} {s : List UInt8}
    (h : (pend.getD [] ++ s).length ≤ nMaxPkgLen) : ∀ f ∈ (scan pend s).1, FrameFits f := by
  intro f hf
  obtain ⟨pre, post, he⟩ := Framing.scan_frame_infix _ _ pend s hf
  apply frameFits_of_length
  rw [he] at h
  simp only [List.length_append] at h
  omega

theorem scan_none_fits {s : List UInt8} (h : s.length ≤ nMaxPkgLen) :
    ∀ f ∈ (scan none s).1, FrameFits f :=
  scan_fits h

/-- One chunk into a fresh object: the callbacks are those of the frames in the chunk. -/
theorem UnDataPkg_new (srv cli : String) {chunk : List UInt8} (h : IsChunk chunk) :
    callbacks ((new srv cli).UnDataPkg chunk).log = frameCallbacks srv cli (scan none chunk).1 ∧
      ∃ d', ((new srv cli).UnDataPkg chunk).val = some (true, d') ∧
        d'.m_receive_buffer = (scan none chunk).2.getD [] := by
  have hfeed : (new srv cli).UnDataPkg chunk =
      (((new srv cli).receiveFrames (scan none chunk).1).mapVal
        (withPending (scan none chunk).2)).mapVal (fun d' => (true, d')) :=
    UnDataPkg_eq (settled_new srv cli) h
  obtain ⟨hlog, d', hval, _⟩ := receiveFrames_fit (scan_none_fits h.le) (new srv cli)
  rw [hfeed]
  refine ⟨?_, d'.withPending (scan none chunk).2, ?_, rfl⟩
  · rw [← callbacks_flatMap_frameEvents]
    exact congrArg callbacks hlog
  · simp only [Traced.mapVal, hval, Option.map_some]

end NetTcpDataPkg

end Perception.Net
