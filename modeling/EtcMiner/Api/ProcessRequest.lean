/-
# The requests of the API

`ApiConnection::processRequest` in `libapi/ApiServer.cpp` with its helpers: the checks of the
request, `api_authorize`, and the methods by their names.  Those that change the miner ask
`checkApiWriteAccess` first.

The response is filled piece by piece.  What a request does to it, to the session and to the
miner is in `EtcMiner.Api.Outcome`.
-/

import EtcMiner.Api.Statistics

namespace EtcMiner
namespace Api

open Common Eth Ethash Lib Pool Stratum

/-- `jResponse`, by its members. -/
structure Response where
  jsonrpc : Option Json := none
  id : Option Json := none
  result : Option Json := none
  error : Option Json := none

/-- The response as a JSON value. -/
def Response.toJson (r : Response) : Json :=
  .obj ([("error", r.error), ("id", r.id), ("jsonrpc", r.jsonrpc), ("result", r.result)].filterMap fun m =>
    m.2.map fun v => (m.1.toList, v))

/-- `m_readonly` and `m_password`. -/
structure ApiSettings where
  readonly : Bool
  password : List Char

/-- What a request is served with: `m_is_authenticated`, the miner and the response. -/
structure Turn (keccak256 : Hash 8 → Hash 8) (γ : Type) where
  authenticated : Bool
  station : Station keccak256 γ
  response : Response := {}

/-- A function of the session. -/
abbrev TurnM (keccak256 : Hash 8 → Hash 8) (γ : Type) := EStateM Fail (Turn keccak256 γ)

variable {keccak256 : Hash 8 → Hash 8} {γ τ ε : Type}

/-- `jResponse["error"]["code"] = code; jResponse["error"]["message"] = message`. -/
def setError (code : ℤ) (message : List Char) : TurnM keccak256 γ Unit :=
  modify fun t => { t with response := { t.response with
    error := some (.obj [("code".toList, .int code), ("message".toList, .str message)]) } }

/-- `jResponse["result"] = v`. -/
def setResult (v : Json) : TurnM keccak256 γ Unit :=
  modify fun t => { t with response := { t.response with result := some v } }

/-- `jResponse["id"] = v`. -/
def setId (v : Json) : TurnM keccak256 γ Unit :=
  modify fun t => { t with response := { t.response with id := some v } }

/-- A change of the miner. -/
def modifyStation (f : Station keccak256 γ → Station keccak256 γ) : TurnM keccak256 γ Unit :=
  modify fun t => { t with station := f t.station }

/-- The value of a call that throws for what is no object. -/
def ofObject {α : Type} (o : Option α) : TurnM keccak256 γ α := ofOption (.thrown .notObject) o

/-- The value of a call that throws or follows a null pointer. -/
def fetch {α : Type} : Except Fail α → TurnM keccak256 γ α
  | .ok a => pure a
  | .error e => throw e

/-- `getRequestValue(membername, refValue, jRequest, optional, jResponse)`: the value, or nothing
and an error in the response. -/
def getRequestValue {α : Type} (isType : Json → Bool) (convert : Json → α) (membername : String)
    (refValue : α) (jRequest : Json) (optional : Bool) : TurnM keccak256 γ (Option α) := do
  if ¬ (← ofObject (jRequest.isMember membername)) then
    if optional then return some refValue
    else
      setError (-32602) ("Missing '" ++ membername ++ "'").toList
      return none
  else
    let v ← ofObject (jRequest.member membername)
    if ¬ isType v then
      setError (-32602) ("Invalid type of value '" ++ membername ++ "'").toList
      return none
    else if v.empty then
      setError (-32602) ("Empty '" ++ membername ++ "'").toList
      return none
    else return some (convert v)

/-- The text of a string. -/
def stringOf : Json → List Char
  | .str s => s
  | _ => []

/-- `getRequestValue` for a `bool`. -/
def getRequestBool (membername : String) (jRequest : Json) : TurnM keccak256 γ (Option Bool) :=
  getRequestValue Json.isBool Json.asBool membername false jRequest false

/-- `getRequestValue` for an `unsigned`. -/
def getRequestUInt (membername : String) (jRequest : Json) : TurnM keccak256 γ (Option ℕ) :=
  getRequestValue Json.isUInt (fun v => (v.asUInt.getD 0).toNat) membername 0 jRequest false

/-- `getRequestValue` for an object. -/
def getRequestObject (membername : String) (jRequest : Json) : TurnM keccak256 γ (Option Json) :=
  getRequestValue Json.isObject (fun v => v) membername .null jRequest false

/-- `getRequestValue` for a `string`. -/
def getRequestString (membername : String) (jRequest : Json) : TurnM keccak256 γ (Option (List Char)) :=
  getRequestValue Json.isString stringOf membername [] jRequest false

/-- `checkApiWriteAccess`. -/
def checkApiWriteAccess (isReadOnly : Bool) : TurnM keccak256 γ Bool := do
  if isReadOnly then setError (-32601) "Method not available".toList
  return !isReadOnly

/-- `parseRequestId`. -/
def parseRequestId (jRequest : Json) : TurnM keccak256 γ Bool := do
  let isMember ← ofObject (jRequest.isMember "id")
  let id ← ofObject (jRequest.member "id")
  if ¬ isMember ∨ id.empty then
    setId .null
    setError (-32600) "Invalid Request (missing or empty id)".toList
    return false
  else if id.isUInt then
    setId (.int (id.asUInt.getD 0).toNat)
    return true
  else if id.isString then
    setId id
    return true
  else
    setId .null
    setError (-32600) "Invalid Request (id has invalid type)".toList
    return false

/-- `max_length`. -/
def maxLength : ℕ := 500

/-- `char copy[max_length] = {0}; s.copy(&copy[0], max_length)`. -/
def zeroPadded (s : List Char) : List Char := s.take maxLength ++ List.replicate (maxLength - s.length) '\x00'

/-- `result`: the differences of all bytes. -/
def mismatch (psw password : List Char) : ℕ :=
  ((zeroPadded psw).zipWith (fun a b => a.toNat ^^^ b.toNat) (zeroPadded password)).foldl (· ||| ·) 0

/-- `api_authorize`. -/
def apiAuthorize (conf : ApiSettings) (jRequest : Json) : TurnM keccak256 γ Unit := do
  modify fun t => { t with authenticated := false }
  match ← getRequestObject "params" jRequest with
  | none => return
  | some jRequestParams =>
    match ← getRequestString "psw" jRequestParams with
    | none => return
    | some psw =>
      if mismatch psw conf.password = 0 then modify fun t => { t with authenticated := true }
      else setError (-401) "Invalid password".toList

section Methods

variable (rt : ApiRuntime) (pc : PoolClient γ τ ε) (conf : ApiSettings) (env : Env τ) (jRequest : Json)

/-- A call of the pool manager: the exception it throws, if it does. -/
def onPool (x : ManagerM keccak256 γ Unit) : TurnM keccak256 γ (Option String) := fun t =>
  match x t.station.pool with
  | .ok _ pool => .ok none { t with station := { t.station with pool := pool } }
  | .error (.error what) pool => .ok (some what) { t with station := { t.station with pool := pool } }
  | .error .crash pool => .error .crash { t with station := { t.station with pool := pool } }

/-- `try { ... } catch (const exception& _ex) { ... }` around a call of the pool manager. -/
def tryPool (x : ManagerM keccak256 γ Unit) : TurnM keccak256 γ Unit := do
  match ← onPool x with
  | none => setResult (.bool true)
  | some what => setError (-422) what.toList

/-- `miner_restart`. -/
def minerRestart : TurnM keccak256 γ Unit := do
  setResult (.bool true)
  modifyStation fun s => { s with restarts := s.restarts + 1 }

/-- `miner_reboot`. -/
def minerReboot : TurnM keccak256 γ Unit := do
  modifyStation fun s => { s with reboots := if env.canReboot then s.reboots + 1 else s.reboots }
  setResult (.bool env.canReboot)

/-- `miner_addconnection`. -/
def minerAddconnection : TurnM keccak256 γ Unit := do
  match ← getRequestObject "params" jRequest with
  | none => return
  | some jRequestParams =>
    match ← getRequestString "uri" jRequestParams with
    | none => return
    | some sUri =>
      match env.newURI sUri with
      | some c => tryPool (PoolManager.addConnection c)
      | none => setError (-422) ("Bad URI : ".toList ++ sUri)

/-- `miner_setactiveconnection`. -/
def minerSetactiveconnection : TurnM keccak256 γ Unit := do
  match ← getRequestObject "params" jRequest with
  | none => return
  | some jRequestParams =>
    if ← ofObject (jRequestParams.isMember "index") then
      match ← getRequestUInt "index" jRequestParams with
      | some index => tryPool (PoolManager.setActiveConnection pc env.t index)
      | none => setError (-422) "Invalid index".toList
    else
      match ← getRequestString "URI" jRequestParams with
      | some uri => tryPool (PoolManager.setActiveConnectionString pc env.t uri)
      | none => setError (-422) "Invalid index".toList

/-- `miner_removeconnection`. -/
def minerRemoveconnection : TurnM keccak256 γ Unit := do
  match ← getRequestObject "params" jRequest with
  | none => return
  | some jRequestParams =>
    match ← getRequestUInt "index" jRequestParams with
    | none => return
    | some index => tryPool (PoolManager.removeConnection index)

/-- `miner->pause(PauseDueToAPIRequest)` or `miner->resume(PauseDueToAPIRequest)`. -/
def Device.setPause (pause : Bool) (d : Device) : Device :=
  { d with miner := d.miner.call (if pause then .pause .apiRequest else .resume .apiRequest) }

/-- `miner_pausegpu`. -/
def minerPausegpu : TurnM keccak256 γ Unit := do
  match ← getRequestObject "params" jRequest with
  | none => return
  | some jRequestParams =>
    match ← getRequestUInt "index" jRequestParams with
    | none => return
    | some index =>
      match ← getRequestBool "pause" jRequestParams with
      | none => return
      | some pause =>
        if index < (← get).station.miners.length then
          modifyStation fun s => { s with miners := s.miners.modify index (Device.setPause pause) }
          setResult (.bool true)
        else setError (-422) "Index out of bounds".toList

/-- `miner_setverbosity`. -/
def minerSetverbosity : TurnM keccak256 γ Unit := do
  match ← getRequestObject "params" jRequest with
  | none => return
  | some jRequestParams =>
    match ← getRequestUInt "verbosity" jRequestParams with
    | none => return
    | some verbosity =>
      if rt.logNext ≤ verbosity then
        setError (-422) ("Verbosity out of bounds (0-".toList ++ decimal (rt.logNext - 1) ++ ")".toList)
      else
        modifyStation fun s => { s with logOptions := verbosity }
        setResult (.bool true)

/-- `miner_setnonce`. -/
def minerSetnonce : TurnM keccak256 γ Unit := do
  match ← getRequestObject "params" jRequest with
  | none => return
  | some jRequestParams =>
    if ← ofObject (jRequestParams.isMember "nonce") then
      match ← getRequestString "nonce" jRequestParams with
      | none => setError (-422) "Invalid nonce".toList
      | some text =>
        match onNonce text with
        | none => setError (-422) "Invalid nonce".toList
        | some nonce =>
          modifyStation fun s => { s with nonce := nonce }
          setResult (.bool true)
    else setResult (.bool true)

/-- A method that shows something of the miner. -/
def showing (f : Station keccak256 γ → Except Fail Json) : TurnM keccak256 γ Unit := do
  setResult (← fetch (f (← get).station))

/-- `if (!checkApiWriteAccess(m_readonly, jResponse)) return;`, and the rest of the method. -/
def writing (x : TurnM keccak256 γ Unit) : TurnM keccak256 γ Unit := do
  if ← checkApiWriteAccess conf.readonly then x

/-- The methods by their names. -/
def methods : List (String × TurnM keccak256 γ Unit) :=
  [("miner_getstat1", showing (getMinerStat1 rt env.now)),
    ("miner_getstatdetail", showing (getMinerStatDetail rt pc env.now)),
    ("miner_ping", setResult (.text "pong")),
    ("miner_restart", writing conf minerRestart),
    ("miner_reboot", writing conf (minerReboot env)),
    ("miner_getconnections", showing fun s => pure (getConnectionsJson s.pool)),
    ("miner_addconnection", writing conf (minerAddconnection env jRequest)),
    ("miner_setactiveconnection", writing conf (minerSetactiveconnection pc env jRequest)),
    ("miner_removeconnection", writing conf (minerRemoveconnection jRequest)),
    ("miner_pausegpu", writing conf (minerPausegpu jRequest)),
    ("miner_setverbosity", writing conf (minerSetverbosity rt jRequest)),
    ("miner_setnonce", writing conf (minerSetnonce jRequest)),
    ("miner_getnonce", showing fun s => pure (.str s.nonce.digits))]

/-- The method is called. -/
def callMethod (method : List Char) : TurnM keccak256 γ Unit :=
  match (methods rt pc conf env jRequest).find? fun m => m.1.toList = method with
  | some m => m.2
  | none => setError (-32601) "Method not found".toList

/-- "Strict sanity checks over jsonrpc v2": the method of a request that passes them. -/
def checkRequest : TurnM keccak256 γ (Option (List Char)) := do
  if ¬ (← parseRequestId jRequest) then return none
  else
    let jsonrpc ← getRequestString "jsonrpc" jRequest
    let method ← if jsonrpc = some "2.0".toList then getRequestString "method" jRequest else pure none
    if method = none then setError (-32600) "Invalid Request".toList
    return method

/-- `processRequest`. -/
def processRequest : TurnM keccak256 γ Unit := do
  modify fun t => { t with response := { t.response with jsonrpc := some (.text "2.0") } }
  match ← checkRequest jRequest with
  | none => return
  | some method =>
    if method = "api_authorize".toList then apiAuthorize conf jRequest
    else if ¬ (← get).authenticated then setError (-403) "Authorization needed".toList
    else callMethod rt pc conf env jRequest method

end Methods

end Api
end EtcMiner
