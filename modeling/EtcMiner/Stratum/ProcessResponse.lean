/-
# The message handler of the stratum client

`EthStratumClient::processResponse` in `libpool/stratum/EthStratumClient.cpp`: the
responses to the requests of the client by their `id`, and the notifications of the
pool by their `method`.

After a response that is not turned into a job nothing follows in the source, so its
`return`s are the ends of the branches here.  The log is not modelled.
-/

import EtcMiner.Stratum.Notify

namespace EtcMiner
namespace Stratum

open Common Eth Lib

/-- What `processResponse` retrieves from a message first. -/
structure Header where
  rpcVer : ℕ
  id : BitVec 32
  isSuccess : Bool
  errReason : List Char
  method : List Char

/-- `_isNotification`. -/
def Header.isNotification (h : Header) : Bool := h.method ≠ [] || h.id = 0

section Handler

variable (rt : Runtime) (now : ℤ)

/-- "Retrieve essential values". -/
def retrieve (responseObject : Json) : Option Header := do
  let rpcVer := if ← responseObject.isMember "jsonrpc" then 2 else 1
  let id ← (← responseObject.get "id" (.int 0)).asUInt
  let isSuccess := (← responseObject.get "error" .null).empty
  let errReason ← if isSuccess then pure [] else processError rt responseObject
  let method ← (← responseObject.get "method" (.text "")).asString rt.valueToString
  return ⟨rpcVer, id, isSuccess, errReason, method⟩

/-- The text `"2.0"`. -/
def isVersion2 : Json → Bool
  | .str s => s = "2.0".toList
  | _ => false

/-- "Very minimal sanity checks", which the message fails. -/
def insane (h : Header) (responseObject : Json) : Option Bool := do
  let jsonrpc ← responseObject.member "jsonrpc"
  let params ← responseObject.member "params"
  let result ← responseObject.member "result"
  return (h.rpcVer = 2 && !isVersion2 jsonrpc) || (h.isNotification && params.empty && result.empty)

/-- `_method`: jobs of an eth-proxy pool look like responses to `eth_getWork`. -/
def methodOf (mode : ℕ) (h : Header) (responseObject : Json) : Option (List Char) := do
  let result ← responseObject.member "result"
  return if h.isNotification ∧ h.method = [] ∧ mode = ETHPROXY ∧ result.isArray then miningNotify
    else h.method

/-- The request `mining.authorize`. -/
def authorizeRequest (conn : Conn) (jsonrpc : List (List Char × Json)) : Json :=
  .obj (("id".toList, .int 3) :: jsonrpc ++ [("method".toList, .text "mining.authorize"),
    ("params".toList, .arr [.str (conn.userDotWorker ++ conn.path), .str conn.pass])])

/-- The flavour of the connection was not accepted. -/
def negotiationFailed : ClientM Unit := do
  if (← get).conn.stratumModeConfirmed then markUnrecoverable
  postDisconnect

/-- Whether a response to `mining.hello` accepts EthereumStratum/2.0.0. -/
def helloAccepts (jResult : Json) : Option Bool := do
  if ¬ jResult.convertibleToObject then return false
  if ¬ (← jResult.isMember "proto") then return false
  let proto ← (← jResult.member "proto").asString rt.valueToString
  if proto ≠ "EthereumStratum/2.0.0".toList then return false
  return (← jResult.isMember "encoding") && (← jResult.isMember "resume") &&
    (← jResult.isMember "timeout") && (← jResult.isMember "maxerrors") && (← jResult.isMember "node")

/-- The response to `mining.hello`. -/
def helloResponse (jResult : Json) : ClientM Unit := do
  if ← expect (helloAccepts rt jResult) then
    setStratumMode 3
    startSession now
    enqueueResponsePlea now
    send (.obj [("id".toList, .int 2), ("method".toList, .text "mining.subscribe")])
  else negotiationFailed

/-- Whether a response to `mining.subscribe` accepts EthereumStratum/1.0.0. -/
def niceHashAccepts (jResult : Json) : Option Bool := do
  if ¬ jResult.isArray then return false
  let first ← jResult.getIdx 0 .null
  if ¬ first.isArray ∨ first.size ≠ 3 then return false
  return (← stringParam rt first 2) = "EthereumStratum/1.0.0".toList

/-- The response to `mining.subscribe` in EthereumStratum/1.0.0. -/
def niceHashResponse (jResult : Json) : ClientM Unit := do
  if ← expect (niceHashAccepts rt jResult) then
    setStratumMode 2
    startSession now
    modifySession fun s => { s with subscribed := true }
    send (.obj [("id".toList, .int 2), ("method".toList, .text "mining.extranonce.subscribe"),
      ("params".toList, .arr [])])
    let enonce ← expect (stringParam rt jResult 1)
    if enonce ≠ [] then processExtranonce enonce
    storeAuthpending true
    enqueueResponsePlea now
    send (authorizeRequest (← get).conn [])
  else negotiationFailed

/-- The response to `eth_submitLogin`. -/
def proxyResponse (isSuccess : Bool) : ClientM Unit := do
  if isSuccess then
    setStratumMode 1
    startSession now
    modifySession fun s => { s with subscribed := true, authorized := true }
    send (.obj [("id".toList, .int 5), ("method".toList, .text "eth_getWork"),
      ("params".toList, .arr [])])
  else negotiationFailed

/-- The response to `mining.subscribe` in mode 0. -/
def stratumResponse (isSuccess : Bool) : ClientM Unit := do
  if isSuccess then
    setStratumMode 0
    startSession now
    modifySession fun s => { s with subscribed := true }
    storeAuthpending true
    enqueueResponsePlea now
    send (authorizeRequest (← get).conn [("jsonrpc".toList, .text "2.0")])
  else negotiationFailed

/-- The response to the first message of a connection. -/
def loginResponse (h : Header) (jResult : Json) : ClientM Unit := do
  let _ ← dequeueResponsePlea now
  let conn := (← get).conn
  if ¬ h.isSuccess ∧ ¬ conn.stratumModeConfirmed then postDisconnect
  else match conn.stratumMode with
    | 3 => helloResponse rt now jResult
    | 2 => niceHashResponse rt now jResult
    | 1 => proxyResponse now h.isSuccess
    | 0 => stratumResponse now h.isSuccess
    | _ => send .null

/-- The response to `mining.subscribe` in mode 3; in the other modes there is nothing to
do. -/
def subscribeResponse (jResult : Json) : ClientM Unit := do
  if (← stratumMode) = 3 then
    let _ ← dequeueResponsePlea now
    match jResult with
    | .str sessionId =>
      if sessionId = [] then
        markUnrecoverable
        postDisconnect
      else
        modifySession fun s => { s with sessionId := sessionId, subscribed := true }
        storeAuthpending true
        enqueueResponsePlea now
        send (authorizeRequest (← get).conn [])
    | _ =>
      markUnrecoverable
      postDisconnect

/-- `_isSuccess`, reevaluated where the result is a boolean. -/
def reevaluated (h : Header) (jResult : Json) : Bool :=
  if h.isSuccess && jResult.isBool then jResult.asBool else h.isSuccess

/-- The response to `mining.authorize`. -/
def authorizeResponse (h : Header) (jResult : Json) : ClientM Unit := do
  let mode ← stratumMode
  let _ ← dequeueResponsePlea now
  if mode ≠ ETHEREUMSTRATUM2 then
    storeAuthpending false
    modifySession fun s => { s with authorized := reevaluated h jResult }
    if ¬ isAuthorized (← get) then
      markUnrecoverable
      postDisconnect
  else
    let workerId := match jResult with
      | .str s => s
      | _ => []
    if ¬ h.isSuccess ∨ workerId = [] then
      markUnrecoverable
      postDisconnect
    else
      storeAuthpending false
      modifySession fun s => { s with authorized := true, workerId := workerId }

/-- The response to a submission. -/
def submitResponse (h : Header) (responseObject jResult : Json) : ClientM Unit := do
  let mode ← stratumMode
  let responseDelayMs ← dequeueResponsePlea now
  let minerIndex := h.id - 40
  if mode ≠ ETHEREUMSTRATUM2 then
    if reevaluated h jResult then emit (.onSolutionAccepted responseDelayMs minerIndex false)
    else emit (.onSolutionRejected responseDelayMs minerIndex)
  else if h.isSuccess then emit (.onSolutionAccepted responseDelayMs minerIndex false)
  else
    let error ← expect (responseObject.member "error")
    let errCode ← asString rt (← expect (error.get "code" (.text "")))
    -- a 2xx error means that the solution is accepted but likely stale
    if errCode.take 1 = ['2'] then emit (.onSolutionAccepted responseDelayMs minerIndex true)
    else emit (.onSolutionRejected responseDelayMs minerIndex)

/-- A response with the id 999, which some pools send on errors. -/
def strayResponse (h : Header) : ClientM Unit := do
  let c ← get
  if ¬ h.isSuccess ∧ (¬ c.conn.stratumModeConfirmed ∨ ¬ isSubscribed c ∨ ¬ isAuthorized c) then
    postDisconnect

/-- The responses to requests of the client.  The result says whether the response is a
job: the answer to the first `eth_getWork`. -/
def handleResponse (h : Header) (responseObject : Json) : ClientM Bool := do
  let jResult ← expect (responseObject.get "result" .null)
  let c ← get
  if h.id = 1 then
    loginResponse rt now h jResult
    return false
  else if h.id = 2 then
    subscribeResponse now jResult
    return false
  else if h.id = 3 then
    authorizeResponse now h jResult
    return false
  else if 40 ≤ h.id ∧ h.id ≤ c.solutionSubmittedMaxId then
    submitResponse rt now h responseObject jResult
    return false
  else if h.id = 5 then
    return c.conn.stratumMode = ETHPROXY ∧ jResult.isArray
  else if h.id = 999 then
    strayResponse h
    return false
  else return false

/-- `mining.set_target`. -/
def setTarget (responseObject : Json) : ClientM Unit := do
  let jPrm ← expect (responseObject.get "params" .null)
  if jPrm.isArray then
    let target ← asString rt (← expect (jPrm.getIdx 0 .null))
    let boundary ← expect (paddedHash target)
    modifySession fun s => { s with nextWorkBoundary := boundary }

/-- `mining.set_difficulty` in mode 2.  The branches of the source for other modes are not
reached. -/
def setNextWorkDifficulty (responseObject : Json) : ClientM Unit := do
  let jPrm ← expect (responseObject.get "params" .null)
  if jPrm.isArray then
    let difficulty ← expect ((← expect (jPrm.getIdx 0 (.int 1))).asDouble rt.toDouble)
    let nextWorkDifficulty := max difficulty (rt.toDouble (1 / 10000))
    let inverse := rt.toDouble (1 / nextWorkDifficulty)
    let target ← expect (getTargetFromDiff nextWorkDifficulty inverse (rt.lexicalCast inverse))
    let boundary ← expect (h256OfString target)
    modifySession fun s => { s with
      nextWorkBoundary := boundary
      nextWorkDifficulty := nextWorkDifficulty }

/-- `mining.set_extranonce` in mode 2. -/
def setExtranonce (responseObject : Json) : ClientM Unit := do
  let jPrm ← expect (responseObject.get "params" .null)
  if jPrm.isArray then
    let enonce ← expect (stringParam rt jPrm 0)
    if enonce ≠ [] then processExtranonce enonce

/-- `mining.set` in mode 3. -/
def miningSet (responseObject : Json) : ClientM Unit := do
  let jPrm ← expect (responseObject.member "params")
  if jPrm.isObject ∧ ¬ jPrm.empty then
    modifySession fun s => { s with firstMiningSet := true }
    let field := fun key => do asString rt (← expect (jPrm.get key (.text "")))
    let timeout ← field "timeout"
    let epoch ← field "epoch"
    let target ← field "target"
    if timeout ≠ [] then
      let timeout ← expect (stoi16 timeout)
      modifySession fun s => { s with timeout := BitVec.ofInt 32 timeout }
    if epoch ≠ [] then
      let epoch ← expect (stoull16 epoch)
      modifySession fun s => { s with epoch := epoch.setWidth 32 }
    if target ≠ [] then
      let boundary ← expect (paddedHash target)
      modifySession fun s => { s with nextWorkBoundary := boundary }
      let hashes ← expect (getHashesToTarget boundary.hex)
      modifySession fun s => { s with nextWorkDifficulty := rt.toDouble hashes }
    let enonce ← field "extranonce"
    if enonce ≠ [] then processExtranonce enonce

/-- The answer to `client.get_version`. -/
def versionAnswer (h : Header) : Json :=
  .obj [("id".toList, .int h.id.toNat), ("result".toList, .str rt.projectNameWithVersion),
    if h.rpcVer = 1 then ("error".toList, .null) else ("jsonrpc".toList, .text "2.0")]

/-- The answer to a method that is not known. -/
def unknownMethodAnswer (h : Header) : Json :=
  .obj ((if h.rpcVer = 2 then [("jsonrpc".toList, .text "2.0")] else []) ++
    [("id".toList, .int h.id.toNat), ("error".toList, .text "Method not found")])

/-- The notifications of the pool, by their method. -/
def handleNotification (h : Header) (method : List Char) (responseObject : Json) : ClientM Unit := do
  let mode ← stratumMode
  if method = miningNotify then
    if mode ≠ ETHEREUMSTRATUM2 then notify rt now responseObject else notify2 rt now responseObject
  else if method = "mining.set_target".toList then setTarget rt responseObject
  else if method = "mining.set_difficulty".toList ∧ mode = ETHEREUMSTRATUM then
    setNextWorkDifficulty rt responseObject
  else if method = "mining.set_extranonce".toList ∧ mode = ETHEREUMSTRATUM then
    setExtranonce rt responseObject
  else if method = "mining.set".toList ∧ mode = ETHEREUMSTRATUM2 then miningSet rt responseObject
  else if method = "mining.bye".toList ∧ mode = ETHEREUMSTRATUM2 then postDisconnect
  else if method = "client.get_version".toList then send (versionAnswer rt h)
  else send (unknownMethodAnswer h)

/-- `processResponse` after the sanity checks. -/
def dispatch (h : Header) (method : List Char) (responseObject : Json) : ClientM Unit := do
  if h.isNotification then
    if (← get).conn.stratumModeConfirmed then handleNotification rt now h method responseObject
  else
    let isJob ← handleResponse rt now h responseObject
    if isJob ∧ (← get).conn.stratumModeConfirmed then
      handleNotification rt now h miningNotify responseObject

/-- `processResponse`. -/
def processResponse (responseObject : Json) : ClientM Unit := do
  let h ← expect (retrieve rt responseObject)
  let method ← expect (methodOf (← stratumMode) h responseObject)
  if ← expect (insane h responseObject) then postDisconnect
  else dispatch rt now h method responseObject

end Handler

end Stratum
end EtcMiner
