import Perception.Cfg.CfgMng
import Perception.Net.RoundTrip
import Perception.Transfer.TcpTransferMng

/-!
# From a received frame to the reply

A frame that was decoded is published on the message bus. The configuration manager and
the safety application wait there; each answers its own commands by publishing a message
that `SendTcpData` packs and sends. Nothing on the way catches an exception, so a run ends
at the first.
-/
namespace Perception.Transfer

set_option autoImplicit false

open Perception.Lib Perception.Cfg Perception.Net StateExcept

def strRevMsg : String := "tcpcli_revmsg"
def strSendMsg : String := "tcpcli_sendmsg"

def TcpSrvRecMsgTopic (strPort : String) : String := strPort ++ strRevMsg
def TcpSrvSendMsgTopic (strPort : String) : String := strPort ++ strSendMsg

/-- Whose `RecTcpProtocolMsg` is attached. -/
inductive Receiver where
  | cfgMng
  | commSafe
  deriving DecidableEq

/-- What is attached to the message bus, in the order in which it was. -/
structure MessageBus where
  receivers : List (String × Receiver)
  /-- The topics that `SendTcpData` is attached to. -/
  senders : List String

/-- Bytes that were sent on a connection. -/
structure Packet where
  conn : Connection
  bytes : List UInt8
  deriving DecidableEq

/-- A frame whose handling completed, and what was sent meanwhile. -/
structure Exchange where
  conn : Connection
  cmd : UInt8
  seqno : UInt16
  sent : List Packet
  deriving DecidableEq

/-- The process. `pkgs` holds the objects by the number of their creation, `conns` the
connections of the network library, `calls` counts the calls of `RecTcpProtocolMsg`. -/
structure Server where
  tcp : TcpTransferMng
  pkgs : List NetTcpDataPkg
  conns : List Connection
  bus : MessageBus
  cfg : CfgMng
  calls : Nat
  sent : List Packet
  log : List Exchange

/-- What the rest of the program does during one call of `RecTcpProtocolMsg`. -/
structure Rest where
  /-- What `TransUpdate` throws. -/
  transUpdate : Option Exn
  /-- What `AppUpdate` throws. -/
  appUpdate : Option Exn
  /-- The topics that the application is attached to by `AppUpdate`. -/
  attached : List String
  /-- The answer of the application's own functions, as text. -/
  report : Except Exn (List UInt8)

/-- What is not modelled: the factory configuration, the JSON library, and the rest of the
program by the number of the call. -/
structure Env where
  exFactory : CfgObjMap
  parse : List UInt8 → Except Exn Json
  sorted : ∀ pData j, parse pData = .ok j → j.Sorted
  dump : Json → Except Exn (List UInt8)
  rest : Nat → Rest

namespace Server

abbrev Handler (α : Type) : Type := EStateM Exn Server α

def start (cfg : CfgMng) (bus : MessageBus) : Server := ⟨.new, [], [], bus, cfg, 0, [], []⟩

/-- `CTcpServiceModule::SendData`: nothing is sent when there are no bytes, no server on
the port, or no such connection of it. -/
def SendData (s : Server) (strConnKey : String) (strData : List UInt8) (s32TcpServerPort : Int) : Server :=
  let conn : Connection := ⟨toString s32TcpServerPort, strConnKey⟩
  if strData.isEmpty ∨ conn ∉ s.conns then s else { s with sent := s.sent ++ [⟨conn, strData⟩] }

/-- When the packer refuses, its output has no bytes. -/
def SendTcpData (s : Server) (s32TcpServerPort : Int) (strConnKey : String) (s32Cmd : UInt8)
    (strData : List UInt8) (s32SendType : Int) : Server :=
  let strKey := toString s32TcpServerPort ++ strConnKey
  match (SortedMap.find? s.tcp.m_mapNetTcpDataPkgPtr strKey).bind (s.pkgs[·]?) with
  | none => s
  | some pkg =>
    s.SendData strConnKey ((pkg.PkgProtocolData s32SendType s32Cmd.toUInt16 strData nMaxPkgLen).getD [])
      s32TcpServerPort

/-- `SendReq` of a reply; both callers pass 1 as the type to send. -/
def sendReply (strTcpSvrPort strCliConn : String) (u32Cmd : UInt8) (strRspData : List UInt8) : Handler Unit :=
  modify fun s =>
    (s.bus.senders.filter (· = TcpSrvSendMsgTopic strTcpSvrPort)).foldl
      (fun s _ => s.SendTcpData (atoi strTcpSvrPort) strCliConn u32Cmd strRspData 1) s

/-- Code of the configuration manager. -/
def onCfgMng {α : Type} (x : Cfg.CfgMng.Cmd α) : Handler α :=
  zoom Server.cfg (fun s cfg => { s with cfg := cfg }) x

/-- `AppUpdate` attaches the application; for 0x13 and 0x14 that leaves the message at
hand alone, as the application does not know these commands. -/
def attach (s : Server) (topics : List String) : Server :=
  { s with bus := { s.bus with receivers := s.bus.receivers ++ topics.map fun t => (t, .commSafe) } }

/-- `CCfgMng::RecTcpProtocolMsg`. -/
def cfgMngRec (env : Env) (rest : Rest) (strTcpSvrPort strCliConn : String) (u32Cmd : UInt8)
    (pData : List UInt8) : Handler Unit := do
  let jRsp ← onCfgMng (Cfg.CfgMng.RecTcpProtocolMsg env.exFactory
    ⟨u32Cmd, env.parse pData, env.sorted pData, rest.appUpdate, rest.transUpdate⟩)
  modify fun s => if u32Cmd = 0x13 ∨ u32Cmd = 0x14 then s.attach rest.attached else s
  match jRsp with
  | none => pure ()
  | some jRspData =>
    let strRspData ← fromExcept (env.dump jRspData)
    sendReply strTcpSvrPort strCliConn u32Cmd strRspData

/-- The commands that the application answers. -/
def commSafeCmds : List UInt8 := [0x41, 0x42, 0x71, 0x72, 0x73, 0x74, 0x75]

/-- `CCommSafeMng::RecTcpProtocolMsg`. -/
def commSafeRec (rest : Rest) (strTcpSvrPort strCliConn : String) (u32Cmd : UInt8) : Handler Unit := do
  if u32Cmd ∈ commSafeCmds then
    let strRspData ← fromExcept rest.report
    sendReply strTcpSvrPort strCliConn u32Cmd strRspData

def RecTcpProtocolMsg (env : Env) (cb : Callback) (r : Receiver) : Handler Unit := do
  let s ← get
  set { s with calls := s.calls + 1 }
  match r with
  | .cfgMng => cfgMngRec env (env.rest s.calls) cb.strServerFlag cb.strCliFlag cb.cmd cb.body
  | .commSafe => commSafeRec (env.rest s.calls) cb.strServerFlag cb.strCliFlag cb.cmd

def DistributProtocolData (env : Env) (cb : Callback) : Handler Unit := do
  let s ← get
  let attached := s.bus.receivers.filter (·.1 = TcpSrvRecMsgTopic cb.strServerFlag)
  (attached.map Prod.snd).forM (RecTcpProtocolMsg env cb)

/-- A step of the object `ptr`, which has stored the version and the sequence number of
the frame when it calls the distribute callback. -/
def onEvent (env : Env) (c : Connection) (ptr : Nat) : Event → Handler Unit
  | .unconvt _ _ => pure ()
  | .distribute cb version seqno => do
    modify fun s =>
      { s with pkgs := s.pkgs.modify ptr fun pkg => { pkg with m_u8Version := version, m_seqno := seqno } }
    let before ← get
    DistributProtocolData env cb
    modify fun s => { s with log := s.log ++ [⟨c, cb.cmd, seqno, s.sent.drop before.sent.length⟩] }

def OnTcpMessage (env : Env) (c : Connection) (ip : String) (pData : List UInt8) : Handler Unit := do
  let s ← get
  match s.tcp.OnTcpMessage c.peer (localKey c ip) with
  | none => pure ()
  | some ptr =>
    match s.pkgs[ptr]? with
    | none => pure ()
    | some pkg =>
      let received := pkg.UnDataPkg pData
      received.log.forM (onEvent env c ptr)
      match received.val with
      | none => throw .undefined
      | some (_, pkg) => modify fun s => { s with pkgs := s.pkgs.set ptr pkg }

/-- The connections and the map after a connect or disconnect, with the new object if one
was created. -/
def OnTcpConnect (s : Server) (e : NetEvent) (c : Connection) (ip : String) : Server :=
  let tcp := s.tcp.step e
  let new := NetTcpDataPkg.new (substrBehindColon (localKey c ip)) c.peer
  { s with
    conns := e.liveAfter s.conns
    tcp := tcp
    pkgs := if s.tcp.created < tcp.created then s.pkgs ++ [new] else s.pkgs }

def step (env : Env) (e : NetEvent) : Handler Unit :=
  match e with
  | .connect c ip => modify fun s => s.OnTcpConnect e c ip
  | .data c ip bytes => OnTcpMessage env c ip bytes
  | .disconnect c ip => modify fun s => s.OnTcpConnect e c ip

def run (env : Env) (es : List NetEvent) : Handler Unit := es.forM (step env)

end Server

/-- The commands of the protocol that have a reply. -/
def repliedCmds : List UInt8 := [0x11, 0x12, 0x13, 0x14, 0x15] ++ Server.commSafeCmds

/-- One frame was sent, on the same connection: a response with the command and the
sequence number of the request. -/
def Exchange.Correlated (x : Exchange) : Prop :=
  ∃ f, x.sent = [⟨x.conn, f⟩] ∧ contentCmd (frameContent f) = x.cmd ∧ contentType (frameContent f) = 0x01 ∧
    contentResult (frameContent f) = 0x01 ∧ contentSeqno (frameContent f) = x.seqno

/-- The packet is labelled as a request with the sequence number 0. -/
structure RequestHead (cmd : UInt8) (p : Packet) : Prop where
  cmd : contentCmd (frameContent p.bytes) = cmd
  type : contentType (frameContent p.bytes) = 0x00
  result : contentResult (frameContent p.bytes) = 0x00
  seqno : contentSeqno (frameContent p.bytes) = 0

theorem requestHead_frame (d : NetTcpDataPkg) (c : Connection) (cmd : UInt8) (input : List UInt8) :
    RequestHead cmd ⟨c, d.frame MSG_REQ cmd.toUInt16 input⟩ where
  cmd := by
    rw [NetTcpDataPkg.frameContent_frame, NetTcpDataPkg.pkgContent_cmd]
    exact UInt8.toUInt8_toUInt16 cmd
  type := by
    rw [NetTcpDataPkg.frameContent_frame]
    rfl
  result := by
    rw [NetTcpDataPkg.frameContent_frame]
    rfl
  seqno := by
    rw [NetTcpDataPkg.frameContent_frame]
    exact wordOf_wordBytes 0

namespace Server

/-- Between two states, nothing but packets labelled as requests was sent, and no exchange
was completed. -/
structure Sends (cmd : UInt8) (s s' : Server) : Prop where
  sent : ∃ ps, s'.sent = s.sent ++ ps ∧ ∀ p ∈ ps, RequestHead cmd p
  log : s'.log = s.log

theorem Sends.of_eq {cmd : UInt8} {s s' : Server} (hsent : s'.sent = s.sent) (hlog : s'.log = s.log) :
    Sends cmd s s' :=
  ⟨⟨[], by rw [hsent, List.append_nil], by simp⟩, hlog⟩

theorem Sends.refl (cmd : UInt8) (s : Server) : Sends cmd s s := .of_eq rfl rfl

theorem Sends.trans {cmd : UInt8} {s s₁ s' : Server} (h : Sends cmd s s₁) (h' : Sends cmd s₁ s') :
    Sends cmd s s' := by
  obtain ⟨ps, hps, hall⟩ := h.sent
  obtain ⟨qs, hqs, hall'⟩ := h'.sent
  refine ⟨⟨ps ++ qs, by rw [hqs, hps, List.append_assoc], fun p hp => ?_⟩, h'.log.trans h.log⟩
  rcases List.mem_append.mp hp with hp | hp
  · exact hall p hp
  · exact hall' p hp

/-- The type 1 that the callers pass is the packer's request, so a packed reply has the
head of a request. -/
theorem sends_SendTcpData (s : Server) (port : Int) (strConnKey : String) (cmd : UInt8) (strData : List UInt8) :
    Sends cmd s (s.SendTcpData port strConnKey cmd strData 1) := by
  unfold SendTcpData
  dsimp only
  split
  · exact .refl cmd s
  · next pkg _ =>
    unfold SendData
    dsimp only
    split
    · exact .refl cmd s
    · next hsend =>
      refine ⟨⟨_, rfl, List.forall_mem_singleton.mpr ?_⟩, rfl⟩
      cases hpkg : pkg.PkgProtocolData 1 cmd.toUInt16 strData nMaxPkgLen with
      | none =>
        rw [hpkg] at hsend
        exact absurd (.inl rfl) hsend
      | some f =>
        rw [Option.getD_some, NetTcpDataPkg.eq_frame pkg _ _ _ hpkg]
        exact requestHead_frame pkg _ cmd strData

theorem sends_sendReply (strTcpSvrPort strCliConn : String) (cmd : UInt8) (strRspData : List UInt8) (s : Server) :
    Sends cmd s (stateOf (sendReply strTcpSvrPort strCliConn cmd strRspData s)) := by
  show Sends cmd s (List.foldl _ s _)
  generalize s.bus.senders.filter (· = TcpSrvSendMsgTopic strTcpSvrPort) = topics
  induction topics generalizing s with
  | nil => exact .refl cmd s
  | cons t topics ih => exact (sends_SendTcpData s _ _ cmd _).trans (ih _)

theorem sends_fromExcept {α : Type} (cmd : UInt8) (x : Except Exn α) (s : Server) :
    Sends cmd s (stateOf ((fromExcept x : Handler α) s)) := by
  cases x <;> exact .refl cmd s

theorem sends_onCfgMng {α : Type} (cmd : UInt8) (x : Cfg.CfgMng.Cmd α) (s : Server) :
    Sends cmd s (stateOf (onCfgMng x s)) := by
  unfold onCfgMng zoom
  cases x s.cfg <;> exact .of_eq rfl rfl

theorem sends_cfgMngRec (env : Env) (rest : Rest) (strTcpSvrPort strCliConn : String) (cmd : UInt8)
    (pData : List UInt8) (s : Server) :
    Sends cmd s (stateOf (cfgMngRec env rest strTcpSvrPort strCliConn cmd pData s)) := by
  unfold cfgMngRec
  refine stateOf_bind_rel (R := Sends cmd) Sends.trans (sends_onCfgMng cmd _ s) fun jRsp s₁ _ => ?_
  refine stateOf_bind_rel (R := Sends cmd) Sends.trans ?_ fun _ s₂ _ => ?_
  · show Sends cmd s₁ (if _ then _ else _)
    split
    · exact .of_eq rfl rfl
    · exact .refl cmd s₁
  · cases jRsp with
    | none => exact .refl cmd s₂
    | some jRspData =>
      refine stateOf_bind_rel (R := Sends cmd) Sends.trans (sends_fromExcept cmd _ s₂) fun strRspData s₃ _ => ?_
      exact sends_sendReply strTcpSvrPort strCliConn cmd strRspData s₃

theorem sends_commSafeRec (rest : Rest) (strTcpSvrPort strCliConn : String) (cmd : UInt8) (s : Server) :
    Sends cmd s (stateOf (commSafeRec rest strTcpSvrPort strCliConn cmd s)) := by
  unfold commSafeRec
  split
  · refine stateOf_bind_rel (R := Sends cmd) Sends.trans (sends_fromExcept cmd _ s) fun strRspData s₁ _ => ?_
    exact sends_sendReply strTcpSvrPort strCliConn cmd strRspData s₁
  · exact .refl cmd s

/-- **The handling of one frame** sends packets labelled as requests, whoever answers it,
also when it throws. -/
theorem sends_DistributProtocolData (env : Env) (cb : Callback) (s : Server) :
    Sends cb.cmd s (stateOf (DistributProtocolData env cb s)) := by
  have hrec : ∀ (r : Receiver) (s : Server), Sends cb.cmd s (stateOf (RecTcpProtocolMsg env cb r s)) := by
    intro r s
    have hcount : Sends cb.cmd s { s with calls := s.calls + 1 } := .of_eq rfl rfl
    cases r with
    | cfgMng => exact hcount.trans (sends_cfgMngRec env _ _ _ cb.cmd _ _)
    | commSafe => exact hcount.trans (sends_commSafeRec _ _ _ cb.cmd _)
  exact stateOf_forM_rel (R := Sends cb.cmd) (Sends.refl cb.cmd) Sends.trans _ (fun r _ s => hrec r s) s

/-- Whatever was sent in an exchange was labelled as a request. -/
def Requests (s : Server) : Prop := ∀ x ∈ s.log, ∀ p ∈ x.sent, RequestHead x.cmd p

theorem Requests.of_log {s s' : Server} (h : s.Requests) (hlog : s'.log = s.log) : s'.Requests := by
  unfold Requests
  rwa [hlog]

theorem requests_onEvent (env : Env) (c : Connection) (ptr : Nat) (e : Event) {s : Server} (h : s.Requests) :
    (stateOf (onEvent env c ptr e s)).Requests := by
  cases e with
  | unconvt _ _ => exact h
  | distribute cb version seqno =>
    let s₁ : Server :=
      { s with pkgs := s.pkgs.modify ptr fun pkg => { pkg with m_u8Version := version, m_seqno := seqno } }
    have hsends := sends_DistributProtocolData env cb s₁
    have hevent : onEvent env c ptr (.distribute cb version seqno) s =
        (DistributProtocolData env cb >>= fun _ => modify fun s' : Server =>
          { s' with log := s'.log ++ [⟨c, cb.cmd, seqno, s'.sent.drop s₁.sent.length⟩] }) s₁ := rfl
    rw [hevent]
    cases hrun : DistributProtocolData env cb s₁ with
    | error ex s₂ =>
      rw [hrun] at hsends
      rw [bind_of_error hrun]
      exact h.of_log hsends.log
    | ok u s₂ =>
      rw [hrun] at hsends
      rw [bind_of_ok hrun]
      obtain ⟨ps, hps, hall⟩ := hsends.sent
      have hps : s₂.sent = s₁.sent ++ ps := hps
      have hlog : s₂.log = s.log := hsends.log
      intro x hx
      rcases List.mem_append.mp hx with hx | hx
      · exact h x (hlog ▸ hx)
      · obtain rfl := List.mem_singleton.mp hx
        intro p hp
        rw [hps, List.drop_left] at hp
        exact hall p hp

theorem requests_OnTcpMessage (env : Env) (c : Connection) (ip : String) (pData : List UInt8) {s : Server}
    (h : s.Requests) : (stateOf (OnTcpMessage env c ip pData s)).Requests := by
  have hevents : ∀ (ptr : Nat) (es : List Event), (stateOf (es.forM (onEvent env c ptr) s)).Requests := by
    intro ptr es
    have hrel := stateOf_forM_rel (R := fun s s' : Server => s.Requests → s'.Requests) (fun _ => id)
      (fun h₁ h₂ => h₂ ∘ h₁) es (fun e _ s => requests_onEvent env c ptr e (s := s)) s
    exact hrel h
  show (stateOf ((match s.tcp.OnTcpMessage c.peer (localKey c ip) with
    | none => pure ()
    | some ptr => _ : Handler Unit) s)).Requests
  cases s.tcp.OnTcpMessage c.peer (localKey c ip) with
  | none => exact h
  | some ptr =>
    show (stateOf ((match s.pkgs[ptr]? with
      | none => pure ()
      | some pkg => _ : Handler Unit) s)).Requests
    cases s.pkgs[ptr]? with
    | none => exact h
    | some pkg =>
      have hlog := hevents ptr (pkg.UnDataPkg pData).log
      show (stateOf (((pkg.UnDataPkg pData).log.forM (onEvent env c ptr) >>= fun _ =>
        (match (pkg.UnDataPkg pData).val with
        | none => throw .undefined
        | some (_, pkg) => modify fun s : Server => { s with pkgs := s.pkgs.set ptr pkg } : Handler Unit)) s)).Requests
      cases hrun : (pkg.UnDataPkg pData).log.forM (onEvent env c ptr) s with
      | error e s₁ =>
        rw [hrun] at hlog
        rw [bind_of_error hrun]
        exact hlog
      | ok u s₁ =>
        rw [hrun] at hlog
        rw [bind_of_ok hrun]
        cases (pkg.UnDataPkg pData).val with
        | none => exact hlog
        | some r => exact hlog.of_log rfl

theorem requests_run (env : Env) (es : List NetEvent) {s : Server} (h : s.Requests) :
    (stateOf (run env es s)).Requests := by
  have hstep : ∀ (e : NetEvent) (s : Server), s.Requests → (stateOf (step env e s)).Requests := by
    intro e s hs
    cases e with
    | connect c ip => exact hs.of_log rfl
    | data c ip bytes => exact requests_OnTcpMessage env c ip bytes hs
    | disconnect c ip => exact hs.of_log rfl
  exact stateOf_forM_rel (R := fun s s' : Server => s.Requests → s'.Requests) (fun _ => id)
    (fun h₁ h₂ => h₂ ∘ h₁) es (fun e _ s => hstep e s) s h

/-- **No reply is correlated.** In no run is a frame whose handling completes answered by
one response with its sequence number. -/
theorem not_correlated (env : Env) (cfg : CfgMng) (bus : MessageBus) (es : List NetEvent) :
    ∀ x ∈ (stateOf (run env es (start cfg bus))).log, x.cmd ∈ repliedCmds → ¬ x.Correlated := by
  rintro x hx - ⟨f, hsent, -, htype, -⟩
  have hreq := requests_run env es (s := start cfg bus) (by simp [Requests, start]) x hx
  have hp := hreq ⟨x.conn, f⟩ (by rw [hsent]; exact List.mem_singleton_self _)
  have hzero : contentType (frameContent f) = 0x00 := hp.type
  rw [htype] at hzero
  exact absurd hzero (by decide)

/-- A request without body, with a sequence number. -/
def requestFrame (cmd : UInt8) (seqno : UInt16) : List UInt8 :=
  let head : SPkgHead := ⟨cHeadFlag, CURRENT_PROTOCOL_VERSION, seqno, cmd, 0x00, 0x00⟩
  let convt := ConvtCode (head.fields ++ wordBytes (CalcCRC1021 head.fields))
  cHeadFlag :: dwordBytes (s32HeardOffSet + convt.length + nTailFlagLen) ++ convt ++ [cTailFlag]

/-- The configuration tool on the shipped port, and what is asked of it. -/
def tool : Connection := ⟨"12316", "10.0.0.2:5000"⟩

def asked (cmd : UInt8) (seqno : UInt16) : List NetEvent :=
  [.connect tool "10.0.0.1", .data tool "10.0.0.1" (requestFrame cmd seqno)]

def toolBus : MessageBus where
  receivers := [(TcpSrvRecMsgTopic "12316", .cfgMng), (TcpSrvRecMsgTopic "12316", .commSafe)]
  senders := [TcpSrvSendMsgTopic "12316"]

/-- The JSON library on an empty text and on null; the application before any report. -/
def toolEnv : Env where
  exFactory := []
  parse := fun _ => .error .parse_error
  sorted := fun _ _ h => by cases h
  dump := fun _ => .ok [0x6E, 0x75, 0x6C, 0x6C]
  rest := fun _ => ⟨none, none, [], .ok [0x6E, 0x75, 0x6C, 0x6C]⟩

def emptyCfg : CfgMng := ⟨.null, [], ⟨[], false⟩⟩

/-- The application's answer to 0x42. -/
theorem not_correlated_report : ∃ x ∈ (stateOf (run toolEnv (asked 0x42 5) (start emptyCfg toolBus))).log,
    x.cmd = 0x42 ∧ x.seqno = 5 ∧ x.sent.length = 1 ∧ ¬ x.Correlated := by
  have hrun : ∃ x ∈ (stateOf (run toolEnv (asked 0x42 5) (start emptyCfg toolBus))).log,
      x.cmd = 0x42 ∧ x.seqno = 5 ∧ x.sent.length = 1 := by decide +kernel
  obtain ⟨x, hx, hcmd, hseqno, hone⟩ := hrun
  have hreplied : x.cmd ∈ repliedCmds := by
    rw [hcmd]
    decide
  exact ⟨x, hx, hcmd, hseqno, hone, not_correlated toolEnv emptyCfg toolBus (asked 0x42 5) x hx hreplied⟩

/-- The tasks are asked for with sequence number 5. One frame comes back, on the same
connection and with the same command; it is a request with sequence number 0. -/
theorem reply_labelled_request :
    ∃ f, (stateOf (run toolEnv (asked 0x12 5) (start emptyCfg toolBus))).log = [⟨tool, 0x12, 5, [⟨tool, f⟩]⟩] ∧
      contentType (frameContent f) = 0x00 ∧ contentSeqno (frameContent f) = 0 ∧
      ¬ (Exchange.mk tool 0x12 5 [⟨tool, f⟩]).Correlated := by
  refine ⟨(NetTcpDataPkg.new "" "").frame MSG_REQ 0x12 [0x6E, 0x75, 0x6C, 0x6C], by decide +kernel,
    by decide +kernel, by decide +kernel, ?_⟩
  rintro ⟨f, hsent, -, htype, -⟩
  obtain rfl : _ = f := (Packet.mk.inj (List.singleton_inj.mp hsent)).2
  revert htype
  decide +kernel

end Server

end Perception.Transfer
