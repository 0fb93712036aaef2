import Mathlib.Data.List.Basic

/-!
# The pool of RPC clients

`GetRpc` looks for an idle client in the pool under `m_Mutex` and else makes one, which
stays in the pool as long as there is room. `CallRpcFunc` opens the connection if it is
closed, calls the function and makes the client idle. Both are taken apart into steps
between which other callers may step: what the network answers and how the function ends is
an input.
-/
namespace Perception.Rpc

set_option autoImplicit false

structure CRPCClient where
  m_bBusy : Bool
  m_bConn : Bool
  /-- `m_TransportShrPtr->isOpen()`. -/
  isOpen : Bool
  deriving DecidableEq

namespace CRPCClient

def new : CRPCClient := ⟨false, false, false⟩

def SetWorkStatus (c : CRPCClient) (bStatus : Bool) : CRPCClient := { c with m_bBusy := bStatus }

def SetConnStatus (c : CRPCClient) (bStatus : Bool) : CRPCClient := { c with m_bConn := bStatus }

/-- Whether there is a connection, and the client afterwards; `bOpen` says whether the
transport can be opened. -/
def OpenRPCConn (c : CRPCClient) (bOpen : Bool) : Bool × CRPCClient :=
  if c.m_bConn then (true, c)
  else if bOpen then (true, ({ c with isOpen := true } : CRPCClient).SetConnStatus true)
  else (false, { c with isOpen := false })

def CloseRPCConn (c : CRPCClient) : CRPCClient := ({ c with isOpen := false } : CRPCClient).SetConnStatus false

def CreateClientService (bOpen : Bool) : Bool × CRPCClient :=
  let (bRet, c) := (new.SetWorkStatus true).OpenRPCConn bOpen
  (bRet, c.SetConnStatus bRet)

end CRPCClient

/-- A client that was made, by number. -/
abbrev RPCClientPtr := Nat

structure CRPCClientMng where
  m_bInited : Bool
  m_nMaxRpcConn : Int
  m_vecRpcClientObj : List RPCClientPtr

def nDefaultRPCConnectCount : Int := 100

def CRPCClientMng.Init (nMaxRpcConn : Int) : CRPCClientMng :=
  ⟨true, if 0 ≥ nMaxRpcConn then nDefaultRPCConnectCount else nMaxRpcConn, []⟩

/-- Where a caller stands in `GetRpcClientFromPool`: before the clients that it has not
looked at, or at an idle one. -/
inductive GetPhase
  | looking (rest : List RPCClientPtr)
  | found (ptrRPCClient : RPCClientPtr)
  deriving DecidableEq

/-- Where a caller stands with a client: before its call, in the function, or behind it. -/
inductive CallPhase
  | handed
  | running
  | done
  deriving DecidableEq

/-- How the function ends; with an exception the socket may be closed already. -/
inductive FuncEnd
  | normal
  | exception
  deriving DecidableEq

variable (κ : Type)

/-- The manager with all clients and their callers. -/
structure Rpcs where
  mng : CRPCClientMng
  heap : RPCClientPtr → CRPCClient
  /-- The number of the client that is made next. -/
  next : RPCClientPtr
  /-- The caller that holds `m_Mutex`. -/
  m_Mutex : Option (κ × GetPhase)
  held : List (κ × RPCClientPtr × CallPhase)

inductive RpcEvent
  /-- `GetRpc` locks `m_Mutex`. -/
  | lock (caller : κ)
  /-- The loop reads the status of its next client. -/
  | look
  /-- The idle client becomes busy and is handed out. -/
  | take
  /-- Behind the loop a client is made. -/
  | create (bOpen : Bool)
  /-- `CallRpcFunc` up to the function. -/
  | openConn (caller : κ) (ptrRPCClient : RPCClientPtr) (bOpen : Bool)
  /-- The function and what is done for an exception. -/
  | callFunc (caller : κ) (ptrRPCClient : RPCClientPtr) (funcEnd : FuncEnd)
  /-- The client becomes idle, and one that is not in the pool is deleted. -/
  | release (caller : κ) (ptrRPCClient : RPCClientPtr)

variable {κ}

namespace Rpcs

def Init (nMaxRpcConn : Int) : Rpcs κ := ⟨.Init nMaxRpcConn, fun _ => .new, 0, none, []⟩

def pool (s : Rpcs κ) : List RPCClientPtr := s.mng.m_vecRpcClientObj

/-- The clients that are held. -/
def out (s : Rpcs κ) : List RPCClientPtr := s.held.map fun h => h.2.1

def write (s : Rpcs κ) (p : RPCClientPtr) (c : CRPCClient) : Rpcs κ :=
  { s with heap := fun q => if q = p then c else s.heap q }

/-- The client that was made, in the pool if there is room. -/
def addClient (s : Rpcs κ) (caller : κ) (c : CRPCClient) : Rpcs κ :=
  { s.write s.next c with
    mng :=
      if s.mng.m_nMaxRpcConn > s.pool.length then { s.mng with m_vecRpcClientObj := s.pool ++ [s.next] }
      else s.mng
    next := s.next + 1
    m_Mutex := none
    held := (caller, s.next, .handed) :: s.held }

variable [DecidableEq κ]

/-- A caller goes on with its call. -/
def advance (s : Rpcs κ) (caller : κ) (p : RPCClientPtr) (phase phase' : CallPhase) : Rpcs κ :=
  { s with held := (caller, p, phase') :: s.held.erase (caller, p, phase) }

def step (s : Rpcs κ) : RpcEvent κ → Option (Rpcs κ)
  | .lock caller =>
    match s.m_Mutex with
    | none => some { s with m_Mutex := some (caller, .looking s.pool) }
    | some _ => none
  | .look =>
    match s.m_Mutex with
    | some (caller, .looking (p :: rest)) =>
      some { s with m_Mutex := some (caller, if (s.heap p).m_bBusy then .looking rest else .found p) }
    | _ => none
  | .take =>
    match s.m_Mutex with
    | some (caller, .found p) =>
      some { s.write p ((s.heap p).SetWorkStatus true) with
        m_Mutex := none
        held := (caller, p, .handed) :: s.held }
    | _ => none
  | .create bOpen =>
    match s.m_Mutex with
    | some (caller, .looking []) =>
      match CRPCClient.CreateClientService bOpen with
      | (true, c) => some (s.addClient caller c)
      | (false, _) => some { s with m_Mutex := none }
    | _ => none
  | .openConn caller p bOpen =>
    if (caller, p, .handed) ∈ s.held then
      if !s.mng.m_bInited then some { s with held := s.held.erase (caller, p, .handed) }
      else
        match (s.heap p).OpenRPCConn bOpen with
        | (true, c) => some ((s.write p c).advance caller p .handed .running)
        | (false, c) => some ((s.write p c).advance caller p .handed .done)
    else none
  | .callFunc caller p funcEnd =>
    if (caller, p, .running) ∈ s.held then
      match funcEnd with
      | .normal => some (s.advance caller p .running .done)
      | .exception => some ((s.write p (s.heap p).CloseRPCConn).advance caller p .running .done)
    else none
  | .release caller p =>
    if (caller, p, .done) ∈ s.held then
      let c := (s.heap p).SetWorkStatus false
      some { s.write p (if p ∈ s.pool then c else c.CloseRPCConn) with held := s.held.erase (caller, p, .done) }
    else none

end Rpcs

end Perception.Rpc
