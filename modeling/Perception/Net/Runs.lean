import Perception.Net.Deframer

/-!
# Runs of the deframer

One object that is given chunk after chunk. As long as the receive buffer is not
over-long at the entry of a call, a run depends on the bytes alone and not on how they
were cut. The over-long buffer is where the source goes wrong: it is cleared without
the head flag, and it is checked before the chunk is appended.
-/
namespace Perception.Net

set_option autoImplicit false

open Perception.Lib

namespace NetTcpDataPkg

/-- A call of `UnDataPkg` whose return value is not looked at. -/
def receive (d : NetTcpDataPkg) (chunk : List UInt8) : Traced Event NetTcpDataPkg :=
  (d.UnDataPkg chunk).mapVal Prod.snd

def receiveAll (d : NetTcpDataPkg) (chunks : List (List UInt8)) : Traced Event NetTcpDataPkg :=
  chunks.foldlM receive d

/-- `P` holds of the object and the chunk at every call of a run. -/
abbrev AtEachCall (P : NetTcpDataPkg → List UInt8 → Prop) (d : NetTcpDataPkg)
    (chunks : List (List UInt8)) : Prop :=
  Traced.AtEachStep receive P d chunks

theorem receiveAll_cons (d : NetTcpDataPkg) (c : List UInt8) (cs : List (List UInt8)) :
    d.receiveAll (c :: cs) = d.receive c >>= fun d' => d'.receiveAll cs := by
  rw [receiveAll, List.foldlM_cons]
  rfl

theorem receive_eq {d : NetTcpDataPkg} (hd : d.Settled) {c : List UInt8} (hc : IsChunk c) :
    d.receive c = d.clip.feed c := by
  rw [receive, UnDataPkg_eq hd hc, Traced.mapVal, Traced.mapVal, Option.map_map]
  cases h : (d.clip.feed c).val <;> simp [h, Traced.ext_iff]

theorem settled_withPending (d : NetTcpDataPkg) {p : Option (List UInt8)} (h : cTailFlag ∉ p.getD []) :
    (d.withPending p).Settled := by
  refine ⟨fun hh => ?_, h⟩
  cases p with
  | none => rfl
  | some q => cases hh

theorem pending_getD_of_settled {d : NetTcpDataPkg} (hd : d.Settled) :
    d.pending.getD [] = d.m_receive_buffer := by
  unfold pending
  cases hh : d.m_bHaveHead with
  | false => simp [hd.hunting hh]
  | true => rfl

/-- A call leaves the object settled. -/
theorem settled_receive {d d' : NetTcpDataPkg} (hd : d.Settled) {c : List UInt8} (hc : IsChunk c)
    (h : (d.receive c).val = some d') : d'.Settled := by
  rw [receive_eq hd hc, feed, feedFrom, Traced.mapVal, Option.map_eq_some_iff] at h
  obtain ⟨t, -, rfl⟩ := h
  have hs := settled_clip hd
  apply settled_withPending
  apply Framing.scan_pending_no_tail _ _ head_ne_tail
  rw [pending_getD_of_settled hs]
  exact hs.no_tail

/-- A call adds at most the chunk to the receive buffer. -/
theorem receive_buffer_length {d d' : NetTcpDataPkg} (hd : d.Settled) {c : List UInt8} (hc : IsChunk c)
    (h : (d.receive c).val = some d') :
    d'.m_receive_buffer.length ≤ d.m_receive_buffer.length + c.length := by
  rw [receive_eq hd hc, feed, feedFrom, Traced.mapVal, Option.map_eq_some_iff] at h
  obtain ⟨t, -, rfl⟩ := h
  have hclip : d.clip.m_receive_buffer.length ≤ d.m_receive_buffer.length := by
    unfold clip
    split
    · exact Nat.zero_le _
    · exact le_rfl
  rw [withPending_buffer]
  cases hp : (scan d.clip.pending c).2 with
  | none => exact Nat.zero_le _
  | some q =>
    obtain ⟨pre, he⟩ := Framing.scan_pending_suffix _ _ _ _ hp
    have hlen := congrArg List.length he
    rw [pending_getD_of_settled (settled_clip hd), List.length_append, List.length_append] at hlen
    rw [Option.getD_some]
    omega

/-- At every call the buffer and the chunk are no longer than the stream. -/
theorem atEachCall_of_stream {n : Nat} {cs : List (List UInt8)} (hcs : ∀ c ∈ cs, IsChunk c)
    {d : NetTcpDataPkg} (hd : d.Settled) (h : d.m_receive_buffer.length + cs.flatten.length ≤ n) :
    AtEachCall (fun d c => d.m_receive_buffer.length + c.length ≤ n) d cs := by
  induction cs generalizing d with
  | nil => exact Traced.atEachStep_nil d
  | cons c cs ih =>
    obtain ⟨hc, hcs⟩ := List.forall_mem_cons.mp hcs
    rw [List.flatten_cons, List.length_append] at h
    refine Traced.atEachStep_cons.mpr ⟨by omega, fun d' hd' => ?_⟩
    have hlen := receive_buffer_length hd hc hd'
    exact ih hcs (settled_receive hd hc hd') (by omega)

/-- Every event of handling frames is an event of one of them. -/
theorem mem_log_receiveFrames {d : NetTcpDataPkg} {fs : List (List UInt8)} {e : Event}
    (h : e ∈ (d.receiveFrames fs).log) :
    ∃ f ∈ fs, e ∈ frameEvents d.m_strServerFlag d.m_strCliFlag f := by
  refine (Traced.foldlM_invariant (I := fun s => s.m_strServerFlag = d.m_strServerFlag ∧
      s.m_strCliFlag = d.m_strCliFlag)
    (Q := fun e => ∃ f ∈ fs, e ∈ frameEvents d.m_strServerFlag d.m_strCliFlag f) fs
    (fun s hs f hf => ⟨fun e he => ⟨f, hf, ?_⟩, fun s' hs' => ?_⟩) d ⟨rfl, rfl⟩).1 e h
  · rw [← hs.1, ← hs.2]
    exact he
  · obtain ⟨-, rfl⟩ := receiveFrame_val hs'
    rw [received_serverFlag, received_cliFlag]
    exact hs

/-- A call that completes no frame only changes the pending input. -/
theorem receive_of_no_frame {d : NetTcpDataPkg} (hd : d.Settled) {c : List UInt8} (hc : IsChunk c)
    {p : Option (List UInt8)} (h : scan d.clip.pending c = ([], p)) :
    d.receive c = pure (d.withPending p) := by
  have hclip : d.clip.withPending p = d.withPending p := by
    unfold clip
    split <;> rfl
  rw [receive_eq hd hc, feed, feedFrom, h, ← hclip]
  rfl

/-- A chunk that begins a frame and does not end it is kept. -/
theorem receive_open_frame (srv cli : String) {z : List UInt8} (hlen : (cHeadFlag :: z).length ≤ nMaxPkgLen)
    (hno : cTailFlag ∉ z) :
    (new srv cli).receive (cHeadFlag :: z) = pure ((new srv cli).withPending (some (cHeadFlag :: z))) := by
  have hc : IsChunk (cHeadFlag :: z) := ⟨List.length_pos_iff.mpr (List.cons_ne_nil _ _), hlen⟩
  apply receive_of_no_frame (settled_new srv cli) hc
  show scan none (cHeadFlag :: z) = ([], some (cHeadFlag :: z))
  rw [scan, Framing.scan_none_head, Framing.scan_some_of_not_mem _ _ hno]
  rfl

theorem tail_not_mem_open {z : List UInt8} (hno : cTailFlag ∉ z) : cTailFlag ∉ cHeadFlag :: z := by
  intro hm
  rcases List.mem_cons.mp hm with he | hm
  · exact head_ne_tail he.symm
  · exact hno hm

end NetTcpDataPkg

end Perception.Net
