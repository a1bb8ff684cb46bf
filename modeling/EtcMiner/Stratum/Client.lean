/-
# The state of the stratum client

`EthStratumClient` and `Session` (`libpool/stratum/EthStratumClient.h`,
`libpool/PoolClient.h`), as far as the handling of messages reads and writes it, and
the small functions of the message handler.

A handler is a program on the state of the client (`ClientM`) that may throw and then
keeps what it has written.  A `std::exception` is swallowed by the line loop;
`throw new exception()` throws a pointer, which no handler catches; and the use of a
null `m_session` is undefined behaviour.  What the handler does to the outside is
recorded in `effects`.

The JSON parser, the printing and rounding of a `double` and the name of the build are
parameters (`Runtime`).
-/

import EtcMiner.Common.CommonData
import EtcMiner.Eth.WorkPackage
import EtcMiner.Lib.Handler
import EtcMiner.Lib.Strto
import EtcMiner.Stratum.Json
import EtcMiner.Stratum.ResponsePleas

namespace EtcMiner
namespace Stratum

open Common Eth Lib

/-- What the libraries provide. -/
structure Runtime where
  parse : List Char → Option Json
  valueToString : ℚ → List Char
  lexicalCast : ℚ → List Char
  toDouble : ℚ → ℚ
  projectNameWithVersion : List Char

/-- `EthStratumClient::StratumProtocol`. -/
def STRATUM : ℕ := 0
def ETHPROXY : ℕ := 1
def ETHEREUMSTRATUM : ℕ := 2
def ETHEREUMSTRATUM2 : ℕ := 3

/-- The connection `m_conn`. -/
structure Conn where
  stratumMode : ℕ
  stratumModeConfirmed : Bool := false
  unrecoverable : Bool := false
  user : List Char := []
  userDotWorker : List Char := []
  workername : List Char := []
  path : List Char := []
  pass : List Char := []

/-- `Session`. -/
structure Session where
  subscribed : Bool := false
  authorized : Bool := false
  extraNonce : BitVec 64 := 0
  extraNonceSizeBytes : BitVec 32 := 0
  nextWorkBoundary : H256 := fun i => if i.val = 4 ∨ i.val = 5 then 0xff else 0
  nextWorkDifficulty : ℚ := 0
  firstMiningSet : Bool := false
  timeout : BitVec 32 := 30
  sessionId : List Char := []
  workerId : List Char := []
  epoch : BitVec 32 := 0

/-- What the client does to the outside: it queues a line, posts a disconnect, or calls
one of its handlers. -/
inductive Effect where
  | send (jReq : Json)
  | postDisconnect
  | onConnected
  | onSolutionAccepted (responseDelayMs : ℤ) (minerIndex : BitVec 32) (isStale : Bool)
  | onSolutionRejected (responseDelayMs : ℤ) (minerIndex : BitVec 32)
  | onWorkReceived (w : WorkPackage)

/-- `EthStratumClient`. -/
structure Client where
  conn : Conn
  session : Option Session := none
  current : WorkPackage := {}
  currentTimestamp : ℤ := 0
  message : List Char := []
  newjobprocessed : Bool := false
  authpending : Bool := false
  pleas : Pleas
  solutionSubmittedMaxId : BitVec 32 := 0
  effects : List Effect := []

/-- What a handler throws, or runs into. -/
inductive Fault where
  | stdException
  | foreignException
  | undefinedBehaviour
deriving DecidableEq

/-- A handler. -/
abbrev ClientM := EStateM Fault Client

/-- The value of a call that throws a `std::exception` if there is none. -/
def expect {α : Type} (o : Option α) : ClientM α := ofOption .stdException o

/-- An effect. -/
def emit (e : Effect) : ClientM Unit := modify fun c => { c with effects := c.effects ++ [e] }

/-- `send(jReq)`. -/
def send (jReq : Json) : ClientM Unit := emit (.send jReq)

/-- `m_io_service.post(... &EthStratumClient::disconnect ...)`. -/
def postDisconnect : ClientM Unit := emit .postDisconnect

/-- `m_session->...`. -/
def session : ClientM Session := do
  match (← get).session with
  | some session => return session
  | none => throw .undefinedBehaviour

/-- A write through `m_session`. -/
def modifySession (f : Session → Session) : ClientM Unit := do
  let s ← session
  modify fun c => { c with session := some (f s) }

theorem session_run {c : Client} {s : Session} (hs : c.session = some s) :
    session c = .ok s c := by
  unfold session
  rw [run_get_bind, hs]
  rfl

theorem modifySession_run {c : Client} {s : Session} {f : Session → Session}
    (hs : c.session = some s) :
    modifySession f c = .ok () { c with session := some (f s) } :=
  run_bind_of_ok (session_run hs) _

theorem modifySession_run_none {c : Client} {f : Session → Session} (hs : c.session = none) :
    modifySession f c = .error .undefinedBehaviour c := by
  have hread : session c = .error .undefinedBehaviour c := by
    unfold session
    rw [run_get_bind, hs]
    rfl
  exact run_bind_of_error hread _

/-- A write into `m_current`. -/
def modifyCurrent (f : WorkPackage → WorkPackage) : ClientM Unit :=
  modify fun c => { c with current := f c.current }

/-- A write through `m_conn`. -/
def modifyConn (f : Conn → Conn) : ClientM Unit := modify fun c => { c with conn := f c.conn }

/-- `m_conn->StratumMode()`. -/
def stratumMode : ClientM ℕ := return (← get).conn.stratumMode

/-- `m_conn->SetStratumMode(mode, true)`. -/
def setStratumMode (mode : ℕ) : ClientM Unit :=
  modifyConn fun conn => { conn with stratumMode := mode, stratumModeConfirmed := true }

/-- `m_conn->MarkUnrecoverable()`. -/
def markUnrecoverable : ClientM Unit := modifyConn fun conn => { conn with unrecoverable := true }

/-- `m_authpending.store(value)`. -/
def storeAuthpending (value : Bool) : ClientM Unit := modify fun c => { c with authpending := value }

/-- `isSubscribed()`. -/
def isSubscribed (c : Client) : Bool := (c.session.map Session.subscribed).getD false

/-- `isAuthorized()`. -/
def isAuthorized (c : Client) : Bool := (c.session.map Session.authorized).getD false

section Handler

variable (rt : Runtime) (now : ℤ)

/-- `v.asString()`. -/
def asString (v : Json) : ClientM (List Char) := expect (v.asString rt.valueToString)

/-- `enqueue_response_plea()`. -/
def enqueueResponsePlea : ClientM Unit := modify fun c => { c with pleas := c.pleas.enqueue now }

/-- `dequeue_response_plea()`. -/
def dequeueResponsePlea : ClientM ℤ := do
  let (pleas, responseDelayMs) := (← get).pleas.dequeue now
  modify fun c => { c with pleas := pleas }
  return responseDelayMs

/-- `startSession()`. -/
def startSession : ClientM Unit := do
  modify fun c => { c with session := some {}, currentTimestamp := now }
  emit .onConnected

/-- The text of the members of an `error` value. -/
def errorText (members : List (List Char × Json)) : Option (List Char) :=
  match members with
  | [] => some []
  | (name, v) :: members => do
    let s ← v.asString rt.valueToString
    return name ++ s ++ " ".toList ++ (← errorText members)

/-- `processError`. -/
def processError (responseObject : Json) : Option (List Char) := do
  let error ← responseObject.get "error" .null
  if error.isNull then return "Unknown error".toList
  match error with
  | .arr xs => errorText rt (xs.map fun v => ([], v))
  | .obj members => errorText rt (members.map fun (name, v) => (name ++ ":".toList, v))
  | _ => error.asString rt.valueToString

/-- `processExtranonce`. -/
def processExtranonce (enonce : List Char) : ClientM Unit := do
  modifySession fun s => { s with extraNonceSizeBytes := BitVec.ofNat 32 enonce.length }
  let enonce := enonce.take 16 ++ List.replicate (16 - enonce.length) '0'
  let extraNonce ← expect (stoull16 enonce)
  modifySession fun s => { s with extraNonce := extraNonce }

/-- The difficulty of a job: that of the session, or the one its boundary stands for. -/
def jobDifficulty (s : Session) (boundary : H256) : Option ℚ :=
  if s.nextWorkDifficulty ≠ 0 then some s.nextWorkDifficulty
  else (getHashesToTarget boundary.hex).map fun hashes => rt.toDouble hashes

/-- The write of `m_current.difficulty`. -/
def setDifficulty : ClientM Unit := do
  let difficulty ← expect (jobDifficulty rt (← session) (← get).current.boundary)
  modifyCurrent fun w => { w with difficulty := difficulty }

end Handler

section Ends

variable {c : Client} {E : Fault → Client → Prop}

@[simp] theorem ends_expect {α : Type} {Q : α → Client → Prop} (o : Option α) :
    Ends (expect o) c Q E ↔ (∀ a, o = some a → Q a c) ∧ (o = none → E .stdException c) :=
  ends_ofOption _ _

theorem ends_expect_some_bind {α β : Type} {Q : β → Client → Prop} (a : α) (f : α → ClientM β) :
    Ends (expect (some a) >>= f) c Q E ↔ Ends (f a) c Q E := Iff.rfl

theorem ends_expect_none_bind {α β : Type} {Q : β → Client → Prop} (f : α → ClientM β) :
    Ends (expect none >>= f) c Q E ↔ E .stdException c := Iff.rfl

@[simp] theorem ends_session {Q : Session → Client → Prop} :
    Ends session c Q E ↔
      (∀ s, c.session = some s → Q s c) ∧ (c.session = none → E .undefinedBehaviour c) := by
  unfold session
  rw [ends_bind, ends_get]
  cases c.session <;> simp

@[simp] theorem ends_stratumMode {Q : ℕ → Client → Prop} :
    Ends stratumMode c Q E ↔ Q c.conn.stratumMode c := Iff.rfl

end Ends

end Stratum
end EtcMiner
