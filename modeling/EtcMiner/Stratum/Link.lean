/-
# The connection of the stratum client

`EthStratumClient` in `libpool/stratum/EthStratumClient.cpp` from the resolution of the
host to the teardown, with the message handler (`EtcMiner.Stratum.Receive`) inside.  A
`Link` is the client with its socket, its timer and what the `io_service` holds for it.

One thread runs the `io_service`, so handlers run one at a time and in the order in which
they were posted or their operations completed: that is `queue`.  An operation under way
(`resolveOp`, `connectOp`, …) completes at any time and puts its handler at the end.
`cancel`, `close` and the destruction of a socket complete its operations with an error.

The handlers of the pool manager are in place: `onDisconnected` unsets the connection,
which is `connSet = false`.  A null pointer that is used, a pop of an empty queue and an
exception that leaves a handler end the run (`Crash`).

`txLogins`, `logins`, `attempts` and `modeSteps` are no variables of the code: they record
the modes of the login requests that wait in `m_txQueue` and that were written to the
socket, the endpoints picked, and the teardowns of a connection whose mode was still to be
found out.
-/

import EtcMiner.Pool.PoolURI
import EtcMiner.Stratum.Receive
import EtcMiner.Stratum.SubmitSolution

namespace EtcMiner
namespace Stratum

open Common Eth Lib Pool

/-- How a run ends before its time. -/
inductive Crash where
  | uncaught
  | nullSession
  | nullConn (teardown : Bool)
  | nullSocket
  | emptyQueue
deriving DecidableEq

/-- `m_socket`: null, or an object that is open or not. -/
inductive Socket where
  | null
  | closed
  | opened
deriving DecidableEq

/-- The wait on `m_workloop_timer`: there is none, it never ends, or it ends. -/
inductive Timer where
  | idle
  | infinite
  | armed
deriving DecidableEq

/-- The handlers the `io_service` runs.  `aborted` and `ec` tell of an error, `hec` is the
outcome of the TLS handshake, and `ssl` the error `SSL_R_PROTOCOL_IS_SHUTDOWN`. -/
inductive Handler where
  | disconnect
  | disconnectFinalize
  | startConnect
  | processResponse (jRes : Json)
  | resolveHandler (endpoints : Option ℕ)
  | connectHandler (ec hec : Bool)
  | workloopTimerElapsed (aborted : Bool)
  | onRecvSocketDataCompleted (rxMessage : Option (List Char))
  | onSendSocketDataCompleted (ec ssl : Bool)
  | onSSLShutdownCompleted

/-- The handlers of the pool manager that the client calls. -/
inductive Callback where
  | onConnected
  | onDisconnected
  | onSolutionAccepted (responseDelayMs : ℤ) (minerIndex : BitVec 32) (isStale : Bool)
  | onSolutionRejected (responseDelayMs : ℤ) (minerIndex : BitVec 32)
  | onWorkReceived (w : WorkPackage)

/-- The client, its socket and what the `io_service` holds for it. -/
structure Link where
  uri : URI
  client : Client
  worktimeout : ℤ
  responsetimeout : ℤ
  connSet : Bool := true
  responds : Bool := false
  connected : Bool := false
  connecting : Bool := false
  disconnecting : Bool := false
  socket : Socket := .null
  endpoints : ℕ := 0
  timer : Timer := .infinite
  lastTxStamp : ℤ := 0
  txPending : Bool := false
  txQueue : List Json := []
  resolveOp : Bool := false
  connectOp : Bool := false
  readOp : Bool := false
  writeOp : Bool := false
  shutdownOp : Bool := false
  queue : List Handler := []
  raised : List Callback := []
  txLogins : List ℕ := []
  logins : List ℕ := []
  attempts : ℕ := 0
  modeSteps : ℕ := 0

/-- A handler of the client. -/
abbrev LinkM := EStateM Crash Link

namespace Link

/-- `isPendingState()`. -/
def isPendingState (l : Link) : Bool := l.connecting || l.disconnecting

/-- `isConnected()`. -/
def isConnected (l : Link) : Bool := l.connected && !l.isPendingState

/-- The capacity of `m_txQueue`. -/
def txCapacity : ℕ := 64

/-- `m_conn->...`, in `disconnect` and `disconnect_finalize` if `teardown`. -/
def useConn (teardown : Bool) : LinkM Unit := do
  if (← get).connSet then return else throw (.nullConn teardown)

/-- `m_io_service.post(m_io_strand.wrap(...))`. -/
def post (h : Handler) : LinkM Unit := modify fun l => { l with queue := l.queue ++ [h] }

/-- A write into the members that the message handler shares. -/
def modifyClient (f : Client → Client) : LinkM Unit := modify fun l => { l with client := f l.client }

/-- `enqueue_response_plea()`. -/
def enqueueResponsePlea (now : ℤ) : LinkM Unit :=
  modifyClient fun c => { c with pleas := c.pleas.enqueue now }

/-- `clear_response_pleas()`. -/
def clearResponsePleas (now : ℤ) : LinkM Unit :=
  modifyClient fun c => { c with pleas := Pleas.clear now }

/-- `m_conn->MarkUnrecoverable()`. -/
def markUnrecoverable : LinkM Unit :=
  modifyClient fun c => { c with conn := { c.conn with unrecoverable := true } }

/-- `expires_at` or `expires_from_now`, and `async_wait`: the wait before is aborted. -/
def arm (t : Timer) : LinkM Unit :=
  modify fun l => { l with
    timer := t
    queue := if l.timer = .idle then l.queue else l.queue ++ [.workloopTimerElapsed true] }

/-- The handlers of the operations on the socket, which end with an error. -/
def aborted (l : Link) : List Handler :=
  (if l.connectOp then [.connectHandler true false] else []) ++
    (if l.readOp then [.onRecvSocketDataCompleted none] else []) ++
    (if l.writeOp then [.onSendSocketDataCompleted true false] else [])

/-- The operations on the socket end. -/
def cancelled (l : Link) : Link :=
  { l with
    queue := l.queue ++ l.aborted
    connectOp := false
    readOp := false
    writeOp := false }

/-- The socket is closed, or destroyed if it becomes `null`. -/
def closed (s : Socket) (l : Link) : Link :=
  { l.cancelled with
    socket := s
    queue := l.cancelled.queue ++ if l.shutdownOp then [.onSSLShutdownCompleted] else []
    shutdownOp := false }

/-- `m_socket->cancel()`. -/
def cancel : LinkM Unit := modify cancelled

/-- `close()`, or the destruction of the socket. -/
def close (s : Socket) : LinkM Unit := modify (closed s)

/-- `m_endpoints.pop()`. -/
def popEndpoint : LinkM Unit := do
  match (← get).endpoints with
  | 0 => throw .emptyQueue
  | n + 1 => modify fun l => { l with endpoints := n }

/-- `m_txQueue.consume_all(...)`. -/
def dropQueue : LinkM Unit := modify fun l => { l with txQueue := [], txLogins := [] }

/-- `sendSocketData()`. -/
def sendSocketData : LinkM Unit := do
  let l ← get
  if ¬ l.isConnected ∨ l.txQueue = [] then
    dropQueue
    modify fun l => { l with txPending := false }
  else
    useConn false
    modify fun l => { l with
      txQueue := []
      txLogins := []
      logins := l.logins ++ l.txLogins
      writeOp := true }

/-- `send(jReq)`. -/
def send (jReq : Json) : LinkM Unit := do
  modify fun l => { l with
    txQueue := if l.txQueue.length < txCapacity then l.txQueue ++ [jReq] else l.txQueue }
  if ¬ (← get).txPending then
    modify fun l => { l with txPending := true }
    sendSocketData

/-- A call of one of the handlers of the pool manager. -/
def raise (c : Callback) : LinkM Unit := modify fun l => { l with raised := l.raised ++ [c] }

/-- What the message handler has done to the outside.  A session starts with
`onConnected`. -/
def perform (now : ℤ) : Effect → LinkM Unit
  | .send jReq => send jReq
  | .postDisconnect => post .disconnect
  | .onConnected => do
    modify fun l => { l with lastTxStamp := now }
    raise .onConnected
  | .onSolutionAccepted responseDelayMs minerIndex isStale =>
    raise (.onSolutionAccepted responseDelayMs minerIndex isStale)
  | .onSolutionRejected responseDelayMs minerIndex =>
    raise (.onSolutionRejected responseDelayMs minerIndex)
  | .onWorkReceived w => raise (.onWorkReceived w)

/-- The effects in turn. -/
def performAll (now : ℤ) : List Effect → LinkM Unit
  | [] => pure ()
  | e :: es => do
    perform now e
    performAll now es

/-- A function of the message handler. -/
def onClient (x : ClientM Unit) : LinkM Unit := fun l =>
  match x { l.client with effects := [] } with
  | .ok _ c => .ok () { l with client := c }
  | .error .undefinedBehaviour c => .error .nullSession { l with client := c }
  | .error _ c => .error .uncaught { l with client := c }

/-- A function of the message handler with what it does to the outside. -/
def call (now : ℤ) (x : ClientM Unit) : LinkM Unit := do
  onClient x
  performAll now (← get).client.effects

/-- `disconnect_finalize()`, from "Clear plea queue and stop timing" on. -/
def finishDisconnect (now : ℤ) : LinkM Unit := do
  clearResponsePleas now
  modifyClient fun c => { c with solutionSubmittedMaxId := 0 }
  arm .infinite
  raise .onDisconnected
  modify fun l => { l with connSet := false }

/-- `disconnect_finalize()`, from "If we got disconnected during autodetection phase" on. -/
def lowerMode (now : ℤ) : LinkM Unit := do
  let l ← get
  let conn := l.client.conn
  if ¬ conn.unrecoverable ∧ ¬ conn.stratumModeConfirmed ∧ l.responds then
    modify fun l => { l with modeSteps := l.modeSteps + 1 }
    if 0 < conn.stratumMode then
      -- "reissue a connect lowering stratum mode checks"
      modifyClient fun c => { c with conn := { c.conn with stratumMode := c.conn.stratumMode - 1 } }
      post .startConnect
    else
      markUnrecoverable
      finishDisconnect now
  else finishDisconnect now

/-- `disconnect_finalize()`. -/
def disconnectFinalize (now : ℤ) : LinkM Unit := do
  close .null
  if (← get).client.session.isSome then useConn true
  modifyClient fun c => { c with session := none, authpending := false }
  modify fun l => { l with disconnecting := false, txPending := false }
  useConn true
  lowerMode now

/-- The flags that `disconnect()` sets first. -/
def down (l : Link) : Link := { l with disconnecting := true, connected := false }

/-- `disconnect()`, by its socket.  `cancel()` throws on one that is not open. -/
def disconnectSocket (now : ℤ) : Socket → LinkM Unit
  | .null => disconnectFinalize now
  | .closed => throw .uncaught
  | .opened => do
    cancel
    useConn true
    if (← get).uri.isSecure then
      modify fun l => { l with shutdownOp := true }
      enqueueResponsePlea now
    else
      close .closed
      disconnectFinalize now

/-- `disconnect()`. -/
def disconnect (now : ℤ) : LinkM Unit := do
  let l ← get
  if l.disconnecting then return
  modify down
  disconnectSocket now l.socket

/-- `init_socket()`. -/
def initSocket : LinkM Unit := do
  useConn false
  modify fun l => { l with socket := .closed }

/-- `connect()`, up to "Initialize a new queue of end points". -/
def prepare : LinkM Unit := do
  arm .armed
  modifyClient fun c => { c with authpending := false }
  if (← get).socket = .null then initSocket
  modify fun l => { l with endpoints := 0 }

/-- `connect()`. -/
def connect : LinkM Unit := do
  if (← get).connecting then return
  prepare
  useConn false
  let l ← get
  if l.uri.isName then
    -- the resolver is replaced, which aborts what it has been asked before
    if l.resolveOp then post (.resolveHandler none)
    modify fun l => { l with resolveOp := true }
  else
    modify fun l => { l with endpoints := 1 }
    post .startConnect

/-- "Start connecting async". -/
def dial (now : ℤ) : LinkM Unit := do
  clearResponsePleas now
  enqueueResponsePlea now
  modifyClient fun c => { c with solutionSubmittedMaxId := 0 }
  useConn false
  modify fun l => { l with socket := .opened, connectOp := true, attempts := l.attempts + 1 }

/-- `start_connect()`. -/
def startConnect (now : ℤ) : LinkM Unit := do
  let l ← get
  if l.connecting then return
  modify fun l => { l with connecting := true }
  if l.endpoints ≠ 0 then
    if l.socket = .null then initSocket
    dial now
  else
    modify fun l => { l with connecting := false }
    useConn false
    disconnectFinalize now

/-- `resolve_handler`. -/
def resolveHandler (now : ℤ) : Option ℕ → LinkM Unit
  | some n => do
    modify fun l => { l with endpoints := l.endpoints + n }
    post .startConnect
  | none => do
    useConn false
    modify fun l => { l with connecting := false }
    disconnectFinalize now

/-- `duration_cast<seconds>(now - t).count()`. -/
def delaySeconds (now t : ℤ) : ℤ := (now - t).tdiv 1000000000

/-- "No msg from client (EthereumStratum/2.0.0)". -/
def keepAlive (now : ℤ) : LinkM Unit := do
  let l ← get
  if l.client.conn.stratumMode = 3 then
    match l.client.session with
    | some s =>
      if s.timeout.toInt - 5 < delaySeconds now l.lastTxStamp then
        send (.obj [("id".toList, .int 7), ("method".toList, .text "mining.noop")])
    | none => return

/-- "Check responses while in connection/disconnection phase".  The result says whether
the tick returns. -/
def checkPending (now : ℤ) : LinkM Bool := do
  let l ← get
  if l.isPendingState ∧ delayMs now l.client.pleas.older ≤ l.responsetimeout * 1000 then
    if l.connecting then
      if l.socket = .null then throw .nullSocket
      close .closed
      return true
    else if l.disconnecting ∧ l.uri.isSecure ∧ l.socket = .opened then
      close .closed
      return true
    else return false
  else return false

/-- The fake error response to a login request. -/
def loginTimeout : Json :=
  .obj [("id".toList, .int 1), ("result".toList, .null), ("error".toList, .bool true)]

/-- The connection is dropped: nothing has come from the pool for too long. -/
def giveUp (now : ℤ) : LinkM Unit := do
  popEndpoint
  clearResponsePleas now
  post .disconnect

/-- "Check responses while connected".  The result says whether the tick returns. -/
def checkConnected (now : ℤ) : LinkM Bool := do
  let l ← get
  if l.isConnected then
    if l.responsetimeout * 1000 ≤ delayMs now l.client.pleas.older then
      if ¬ l.client.conn.stratumModeConfirmed ∧ ¬ l.client.conn.unrecoverable then
        clearResponsePleas now
        post (.processResponse loginTimeout)
        return true
      else
        giveUp now
        return false
    else if l.client.session.isSome ∧ l.worktimeout < delaySeconds now l.client.currentTimestamp then
      giveUp now
      return false
    else return false
  else return false

/-- The checks of a tick.  The result says whether it returns. -/
def checkPleas (now : ℤ) : LinkM Bool := do
  if (← get).client.pleas.count = 0 then return false
  if ← checkPending now then return true
  checkConnected now

/-- `workloop_timer_elapsed`. -/
def workloopTimerElapsed (now : ℤ) (aborted : Bool) : LinkM Unit := do
  if aborted ∨ ¬ (← get).connSet then return
  keepAlive now
  if ← checkPleas now then return
  arm .armed

/-- The login request in the mode of the connection. -/
def loginRequest (rt : Runtime) (uri : URI) (conn : Conn) : Json :=
  let request := fun method params rest =>
    Json.obj (("id".toList, .int 1) :: ("method".toList, .text method) :: ("params".toList, params) :: rest)
  match conn.stratumMode with
  | 0 => request "mining.subscribe" (.arr []) [("jsonrpc".toList, .text "2.0")]
  | 1 => request "eth_submitLogin"
      (.arr (.str (conn.user ++ conn.path) :: if conn.pass = [] then [] else [.str conn.pass]))
      (if conn.workername = [] then [] else [("worker".toList, .str conn.workername)])
  | 2 => request "mining.subscribe"
      (.arr [.str rt.projectNameWithVersion, .text "EthereumStratum/1.0.0"]) []
  | 3 => request "mining.hello"
      (.obj [("agent".toList, .str rt.projectNameWithVersion), ("host".toList, .str uri.host),
        ("port".toList, .str (Nat.toDigits 16 uri.port.toNat)),
        ("proto".toList, .text "EthereumStratum/2.0.0")]) []
  | _ => request "mining.subscribe" (.arr []) []

/-- The mode of a new connection: that of the scheme, confirmed, or 3 to begin with. -/
def selectMode (uri : URI) (conn : Conn) : Conn :=
  if uri.version < 999 then { conn with stratumMode := uri.version, stratumModeConfirmed := true }
  else if ¬ conn.stratumModeConfirmed ∧ conn.stratumMode = 999 then { conn with stratumMode := 3 }
  else conn

/-- `recvSocketData()`. -/
def recvSocketData : LinkM Unit := do
  useConn false
  modify fun l => { l with readOp := true }

/-- `connect_handler`, "Timeout has run before or we got error". -/
def connectFailed : LinkM Unit := do
  if (← get).socket = .null then throw .nullSocket
  if (← get).socket = .opened then close .closed
  popEndpoint
  post .startConnect

/-- "We got a socket connection established". -/
def accepted (l : Link) : Link :=
  { l with
    responds := true
    connected := true
    txQueue := []
    txLogins := []
    client := { l.client with message := [] } }

/-- `connect_handler`, from "Clean buffer from any previous stale data" on. -/
def login (rt : Runtime) (now : ℤ) : LinkM Unit := do
  clearResponsePleas now
  modify fun l => { l with client := { l.client with conn := selectMode l.uri l.client.conn } }
  recvSocketData
  enqueueResponsePlea now
  let l ← get
  modify fun l => { l with txLogins := l.txLogins ++ [l.client.conn.stratumMode] }
  send (loginRequest rt l.uri l.client.conn)

/-- `connect_handler` with a socket that is open. -/
def connectSucceeded (rt : Runtime) (now : ℤ) (hec : Bool) : LinkM Unit := do
  useConn false
  modify accepted
  if (← get).uri.isSecure ∧ hec then
    markUnrecoverable
    post .disconnect
  else login rt now

/-- `connect_handler`. -/
def connectHandler (rt : Runtime) (now : ℤ) (ec hec : Bool) : LinkM Unit := do
  modify fun l => { l with connecting := false }
  if ec then connectFailed
  else
    if (← get).socket = .null then throw .nullSocket
    if (← get).socket = .opened then connectSucceeded rt now hec else connectFailed

/-- What `processResponse` does when `m_conn` is null. -/
inductive NullConn where
  | crashes
  | disconnects
  | ignores

/-- `processResponse` with a null `m_conn`: most branches use it, some responses are ignored
before they do, and the sanity checks do not need it. -/
def processResponseNull (rt : Runtime) (maxId : BitVec 32) (responseObject : Json) : NullConn :=
  match retrieve rt responseObject with
  | none => .ignores
  | some h =>
    if h.isNotification ∧ h.method = [] then .crashes
    else match insane h responseObject with
      | none => .ignores
      | some true => .disconnects
      | some false =>
        if h.isNotification ∨ h.id = 1 ∨ h.id = 2 ∨ h.id = 3 ∨ (40 ≤ h.id ∧ h.id ≤ maxId) ∨ h.id = 5 ∨
          (h.id = 999 ∧ ¬ h.isSuccess) then .crashes
        else .ignores

/-- The loop over the lines with a null `m_conn`. -/
def processLinesNull (rt : Runtime) : List (List Char) → LinkM Unit
  | [] => pure ()
  | line :: lines => do
    match (messageOf rt line).map (processResponseNull rt (← get).client.solutionSubmittedMaxId) with
    | some .crashes => throw (.nullConn false)
    | some .disconnects => post .disconnect
    | _ => pure ()
    processLinesNull rt lines

/-- The lines of a transmission that completes after the connection was unset. -/
def receiveNull (rt : Runtime) (rxMessage : List Char) : LinkM Unit := do
  let (lines, rest) := takeLines ((← get).client.message ++ rxMessage)
  modifyClient fun c => { c with newjobprocessed := false, message := rest }
  processLinesNull rt lines

/-- `onRecvSocketDataCompleted`. -/
def onRecvSocketDataCompleted (rt : Runtime) (now : ℤ) : Option (List Char) → LinkM Unit
  | some rxMessage => do
    if (← get).connSet then call now (Stratum.onRecvSocketDataCompleted rt now rxMessage)
    else receiveNull rt rxMessage
    if (← get).isConnected then recvSocketData
  | none => do
    let l ← get
    if l.isConnected then
      if l.client.authpending then
        useConn false
        markUnrecoverable
      post .disconnect

/-- `onSendSocketDataCompleted`. -/
def onSendSocketDataCompleted (now : ℤ) (ec ssl : Bool) : LinkM Unit := do
  if ec then
    dropQueue
    modify fun l => { l with txPending := false }
    if ssl then post .disconnect
    if (← get).isConnected then post .disconnect
  else
    let l ← get
    if l.client.session.isSome then
      useConn false
      if l.client.conn.stratumMode = 3 then modify fun l => { l with lastTxStamp := now }
    if l.txQueue = [] then modify fun l => { l with txPending := false }
    else sendSocketData

/-- `onSSLShutdownCompleted`. -/
def onSSLShutdownCompleted (now : ℤ) : LinkM Unit := do
  clearResponsePleas now
  post .disconnectFinalize

/-- The response of the client to itself, outside of the line loop. -/
def processFake (rt : Runtime) (now : ℤ) (jRes : Json) : LinkM Unit := do
  if (← get).connSet then call now (processResponse rt now jRes)
  else match processResponseNull rt (← get).client.solutionSubmittedMaxId jRes with
    | .crashes => throw (.nullConn false)
    | .disconnects => post .disconnect
    | .ignores => pure ()

/-- A handler is run. -/
def handle (rt : Runtime) (now : ℤ) : Handler → LinkM Unit
  | .disconnect => disconnect now
  | .disconnectFinalize => disconnectFinalize now
  | .startConnect => startConnect now
  | .processResponse jRes => processFake rt now jRes
  | .resolveHandler endpoints => resolveHandler now endpoints
  | .connectHandler ec hec => connectHandler rt now ec hec
  | .workloopTimerElapsed aborted => workloopTimerElapsed now aborted
  | .onRecvSocketDataCompleted rxMessage => onRecvSocketDataCompleted rt now rxMessage
  | .onSendSocketDataCompleted ec ssl => onSendSocketDataCompleted now ec ssl
  | .onSSLShutdownCompleted => onSSLShutdownCompleted now

/-- What can happen: the next handler is run, the pool manager calls the client, or an
operation completes. -/
inductive Event where
  | run (now : ℤ)
  | connect
  | disconnect (now : ℤ)
  | submitSolution (now : ℤ) (solution : Solution)
  | resolved (endpoints : Option ℕ)
  | connected (ec hec : Bool)
  | received (rxMessage : Option (List Char))
  | sent (ec ssl : Bool)
  | shutdownCompleted
  | expired

/-- The operation `op`, if it is under way, completes with the handler `h`. -/
def complete (op : Link → Bool) (done : Link → Link) (h : Handler) : LinkM Unit :=
  modify fun l => if op l then { done l with queue := l.queue ++ [h] } else l

/-- `disconnect()` as the pool manager calls it: its caller handles an exception. -/
def callDisconnect (now : ℤ) : LinkM Unit :=
  tryCatch (disconnect now) fun
    | .uncaught => pure ()
    | e => throw e

/-- One step. -/
def act (rt : Runtime) : Event → LinkM Unit
  | .run now => do
    match (← get).queue with
    | [] => pure ()
    | h :: queue =>
      modify fun l => { l with queue := queue }
      handle rt now h
  | .connect => connect
  | .disconnect now => callDisconnect now
  | .submitSolution now solution => call now (submitSolution now solution)
  | .resolved endpoints =>
    complete resolveOp (fun l => { l with resolveOp := false }) (.resolveHandler endpoints)
  | .connected ec hec =>
    complete connectOp (fun l => { l with connectOp := false }) (.connectHandler ec hec)
  | .received rxMessage =>
    complete readOp (fun l => { l with readOp := false }) (.onRecvSocketDataCompleted rxMessage)
  | .sent ec ssl =>
    complete writeOp (fun l => { l with writeOp := false }) (.onSendSocketDataCompleted ec ssl)
  | .shutdownCompleted =>
    complete shutdownOp (fun l => { l with shutdownOp := false }) .onSSLShutdownCompleted
  | .expired =>
    complete (fun l => l.timer = .armed) (fun l => { l with timer := .idle }) (.workloopTimerElapsed false)

end Link

/-- A run of the client: where it is, and how it ended if it did. -/
structure LinkRun where
  link : Link
  crash : Option Crash := none

/-- One step of a run. -/
def LinkRun.next (rt : Runtime) (s : LinkRun) (e : Link.Event) : LinkRun :=
  match s.crash with
  | some _ => s
  | none =>
    match Link.act rt e s.link with
    | .ok _ l => ⟨l, none⟩
    | .error c l => ⟨l, some c⟩

/-- A client after its construction and `setConnection`. -/
def Link.init (uri : URI) (conn : Conn) (worktimeout responsetimeout now : ℤ) : Link where
  uri := uri
  client := { conn := conn, pleas := Pleas.clear now }
  worktimeout := worktimeout
  responsetimeout := responsetimeout

end Stratum
end EtcMiner
