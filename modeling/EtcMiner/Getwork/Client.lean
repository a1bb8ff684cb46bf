/-
# The getwork client

`EthGetworkClient` in `libpool/getwork/EthGetworkClient.cpp`: one request at a time is posted over
a connection of its own, and the rest wait in `m_txQueue`.  `send` puts a request there and makes a
connection unless `m_txPending` says that one is under way; `handle_connect` takes the first line
off the queue and writes it; `handle_write` reads the response to its end; `handle_read` takes it
apart, and makes the next connection if there is more to send.

Handlers and the calls of the pool manager run on the one thread of the `io_service`, so each is one
step.  An operation under way (`connectOp`, `writeOp`, `readOp`, `resolveOp`) completes at any time
with any outcome.  The timer runs out at any time; its handler runs some time later (`elapsed`), and
what sets or cancels the timer in between does not stop it.  `m_txQueue` holds at most `nodes`
elements, the nodes allocated beforehand: `bounded_push` drops what finds none free.  The constructor
gives the queue no size, so in the code there are none (`Client.new`).  An error of a write leaves
what was not transmitted in `m_request`.

The run is followed up to the next `disconnect()`, or to an exception that leaves a handler
(`ended`).  `sent`, `dequeued`, `discarded` and `wire` are no variables of the code.  They record
the requests handed to `send`, those taken off the queue and those that `disconnect()` drops, and
what each connection carries; what a write under way is to transmit counts as carried until it
fails.

The JSON reader and writer and what the work handler of the pool manager throws are parameters.
-/

import EtcMiner.Lib.Run
import EtcMiner.Stratum.Link

namespace EtcMiner
namespace Getwork

open Common Eth Lib Stratum

/-- `Json::writeString`.  The text of a value is not empty. -/
structure Writer where
  writeString : Json → List Char
  ne_nil : ∀ v, writeString v ≠ []

/-- How a handler ends the program: by an exception, or by a pop of an empty queue. -/
inductive Crash where
  | uncaught
  | emptyQueue
deriving DecidableEq

/-- `EthGetworkClient`. -/
structure Client where
  host : List Char := []
  path : List Char := []
  isName : Bool := false
  worktimeout : ℤ := 180
  nodes : ℕ
  solutionSubmittedMaxId : BitVec 32
  connecting : Bool := false
  connected : Bool := false
  session : Bool := false
  txPending : Bool := false
  txQueue : List (List Char) := []
  endpoints : ℕ := 0
  request : List Char := []
  current : WorkPackage := {}
  currentTstamp : ℤ := 0
  pendingJReq : Json := .null
  pendingTstamp : ℤ := 0
  timer : Bool := false
  elapsed : ℕ := 0
  resolveOp : Bool := false
  connectOp : Bool := false
  writeOp : Bool := false
  readOp : Bool := false
  raised : List Callback := []
  ended : Bool := false
  sent : List (List Char) := []
  dequeued : List (List Char) := []
  discarded : List (List Char) := []
  wire : List (List Char) := []

/-- A client after its construction and `setConnection`: the queue has no nodes, and
`m_solution_submitted_max_id` is whatever was in its place. -/
def Client.new (host path : List Char) (isName : Bool) (worktimeout : ℤ) (solutionSubmittedMaxId : BitVec 32) :
    Client where
  host := host
  path := path
  isName := isName
  worktimeout := worktimeout
  nodes := 0
  solutionSubmittedMaxId := solutionSubmittedMaxId

/-- A handler of the client. -/
abbrev GetworkM := EStateM Crash Client

/-- The value of a call that throws if there is none. -/
def expect {α : Type} (o : Option α) : GetworkM α := ofOption .uncaught o

/-- How an operation ends. -/
inductive Outcome where
  | ok
  | failed
  | aborted

/-- How a write ends.  With an error at most `n` bytes are transmitted. -/
inductive Sent where
  | ok
  | failed (n : ℕ)
  | aborted (n : ℕ)

/-- How a read ends: with the whole response at the end of the stream, or with an error. -/
inductive Received where
  | response (rxMessage : List Char)
  | failed
  | aborted

/-- `m_endpoints.pop()`. -/
def popEndpoint : GetworkM Unit := do
  match (← get).endpoints with
  | 0 => throw .emptyQueue
  | n + 1 => modify fun c => { c with endpoints := n }

/-- The client after `disconnect()`. -/
def Client.closed (c : Client) : Client :=
  { c with
    connected := false
    session := false
    connecting := false
    txPending := false
    timer := false
    txQueue := []
    request := []
    raised := c.raised ++ [.onDisconnected]
    discarded := c.discarded ++ c.txQueue
    ended := true }

@[simp] theorem Client.closed_ended (c : Client) : c.closed.ended = true := rfl

/-- `disconnect()`. -/
def disconnect : GetworkM Unit := modify Client.closed

/-- `begin_connect()`. -/
def beginConnect : GetworkM Unit := do
  if (← get).endpoints ≠ 0 then modify fun c => { c with connectOp := true }
  else disconnect

/-- `m_txQueue.bounded_push(line)`. -/
def Client.push (c : Client) (line : List Char) : Client :=
  { c with
    txQueue := if c.txQueue.length < c.nodes then c.txQueue ++ [line] else c.txQueue
    sent := c.sent ++ [line] }

/-- `send(sReq)`. -/
def send (sReq : List Char) : GetworkM Unit := do
  modify fun c => c.push sReq
  if ¬ (← get).txPending then
    modify fun c => { c with txPending := true }
    beginConnect

/-- `jGetWork`. -/
def getWorkRequest : Json :=
  .obj [("id".toList, .int 1), ("jsonrpc".toList, .text "2.0"), ("method".toList, .text "eth_getWork"),
    ("params".toList, .arr [])]

/-- What is written for a request. -/
def post (host path line : List Char) : List Char :=
  "POST ".toList ++ (if path = [] then "/".toList else path) ++ " HTTP/1.0\r\nHost: ".toList ++ host ++
    "\r\nContent-Type: application/json\r\nContent-Length: ".toList ++ (toString line.length).toList ++
    "\r\nConnection: close\r\n\r\n".toList ++ line

/-- The lines popped up to the first that is not empty, which is the request, and the rest. -/
def popLine : List (List Char) → Option (List Char) × List (List Char)
  | [] => (none, [])
  | line :: lines => if line ≠ [] then (some line, lines) else popLine lines

/-- `isConvertibleTo(booleanValue)`. -/
def convertibleToBool : Json → Bool
  | .null | .bool _ | .int _ | .real _ => true
  | _ => false

/-- `asBool()`. -/
def toBool : Json → Bool
  | .bool b => b
  | .int i => i ≠ 0
  | .real q => q ≠ 0
  | _ => false

/-- The text up to the first `"\r\n"`, and the one after it. -/
def splitLine : List Char → Option (List Char × List Char)
  | [] => none
  | [_] => none
  | c :: d :: cs =>
    if c = '\r' ∧ d = '\n' then some ([], cs) else (splitLine (d :: cs)).map fun r => (c :: r.1, r.2)

/-- The first line of a response reports success. -/
def statusOk (line : List Char) : Bool :=
  line.take 7 = "HTTP/1.".toList && line.contains ' ' &&
    ((line.dropWhile (· ≠ ' ')).drop 1).take 3 = "200".toList

section Requests

variable (w : Writer)

/-- `m_jsonGetWork`. -/
def jsonGetWork : List Char := w.writeString getWorkRequest

/-- `connect()`. -/
def connect : GetworkM Unit := do
  if (← get).connecting then return
  modify fun c => { c with connecting := true, timer := false, endpoints := 0 }
  if (← get).isName then modify fun c => { c with resolveOp := true }
  else
    modify fun c => { c with endpoints := 1 }
    send (jsonGetWork w)

/-- `handle_resolve`. -/
def handleResolve : Option ℕ → GetworkM Unit
  | some n => do
    modify fun c => { c with endpoints := c.endpoints + n }
    send (jsonGetWork w)
  | none => disconnect

/-- `getwork_timer_elapsed`. -/
def getworkTimerElapsed (now : ℤ) : GetworkM Unit := do
  let c ← get
  if c.worktimeout < (now - c.currentTstamp).tdiv 1000000000 then
    popEndpoint
    disconnect
  else send (jsonGetWork w)

/-- The request of `submitHashrate`. -/
def hashrateRequest (rate : BitVec 64) (id : List Char) : Json :=
  .obj [("id".toList, .int 9), ("jsonrpc".toList, .text "2.0"), ("method".toList, .text "eth_submitHashrate"),
    ("params".toList, .arr [.str ('0' :: 'x' :: toHex64 rate), .str id])]

/-- `submitHashrate`. -/
def submitHashrate (rate : BitVec 64) (id : List Char) : GetworkM Unit := do
  if (← get).session then send (w.writeString (hashrateRequest rate id))

/-- The id of a submission. -/
def solutionId (solution : Solution) : BitVec 32 := 40 + BitVec.ofNat 32 solution.midx

/-- The request of `submitSolution`. -/
def solutionRequest (solution : Solution) : Json :=
  .obj [("id".toList, .int (solutionId solution).toNat), ("jsonrpc".toList, .text "2.0"),
    ("method".toList, .text "eth_submitWork"),
    ("params".toList, .arr [.str ('0' :: 'x' :: toHex64 solution.nonce), .str (FixedHash.hex solution.work.header),
      .str (FixedHash.hex solution.mixHash)])]

/-- `submitSolution`. -/
def submitSolution (solution : Solution) : GetworkM Unit := do
  if (← get).session then
    modify fun c => { c with
      solutionSubmittedMaxId :=
        if c.solutionSubmittedMaxId < solutionId solution then solutionId solution else c.solutionSubmittedMaxId }
    send (w.writeString (solutionRequest solution))

end Requests

section Responses

variable (rt : Runtime)

/-- `handle_connect`, from "Retrieve 1st line waiting in the queue and submit" on. -/
def writeFirst (now : ℤ) (c : Client) : Client :=
  if c.txQueue = [] then { c with txPending := false, wire := c.wire ++ [[]] }
  else
    let rest := (popLine c.txQueue).2
    let popped := { c with
      txQueue := rest
      dequeued := c.dequeued ++ c.txQueue.take (c.txQueue.length - rest.length) }
    match (popLine c.txQueue).1 with
    | none => { popped with wire := c.wire ++ [[]] }
    | some line =>
      { popped with
        pendingJReq := (rt.parse line).getD .null
        pendingTstamp := now
        request := c.request ++ post c.host c.path line
        writeOp := true
        wire := c.wire ++ [c.request ++ post c.host c.path line] }

/-- "If in "connecting" phase raise the proper event". -/
def openSession (now : ℤ) (c : Client) : Client :=
  if c.connecting then
    { c with
      connected := true
      session := true
      connecting := false
      raised := c.raised ++ [.onConnected]
      currentTstamp := now }
  else c

/-- `handle_connect`. -/
def handleConnect (now : ℤ) : Outcome → GetworkM Unit
  | .ok => modify fun c => writeFirst rt now (openSession now c)
  | .failed => do
    popEndpoint
    beginConnect
  | .aborted => pure ()

/-- A write ends before all is transmitted. -/
def Client.broken (c : Client) (n : ℕ) : Client :=
  let k := min n (c.request.length - 1)
  { c with request := c.request.drop k, wire := c.wire.dropLast ++ [c.request.take k] }

/-- `handle_write`. -/
def handleWrite : Sent → GetworkM Unit
  | .ok => modify fun c => { c with request := [], readOp := true }
  | .failed n => do
    modify fun c => c.broken n
    popEndpoint
    beginConnect
  | .aborted n => modify fun c => c.broken n

/-- `processError`, which is that of the stratum client. -/
def processError (jRes : Json) : Option (List Char) := Stratum.processError rt jRes

/-- `h256(JPrm.get(index, "").asString())`. -/
def hashParam (jPrm : Json) (index : ℕ) : Option H256 := (stringParam rt jPrm index).bind h256OfString

/-- The package of a response to `eth_getWork`. -/
def newWork (jPrm : Json) : Option WorkPackage := do
  let header ← hashParam rt jPrm 0
  let seed ← hashParam rt jPrm 1
  let boundary ← hashParam rt jPrm 2
  return { header, seed, boundary, job := (FixedHash.hex header).drop 2 }

/-- The timer is set, for half a minute or for the recheck period. -/
def armTimer : GetworkM Unit := modify fun c => { c with timer := true }

variable (now : ℤ) (throws : WorkPackage → Bool)

/-- A new package is passed on. -/
def workReceived (newWp : WorkPackage) : GetworkM Unit := do
  if (← get).current.header ≠ newWp.header then
    modify fun c => { c with
      current := newWp
      currentTstamp := now
      raised := c.raised ++ [.onWorkReceived newWp] }
    if throws newWp then throw .uncaught

/-- A response to `eth_getWork`. -/
def workResponse (isSuccess : Bool) (jRes : Json) : GetworkM Unit := do
  if ¬ isSuccess then armTimer
  else if ← expect (jRes.isMember "result") then
    let newWp ← expect (newWork rt (← expect (jRes.get "result" .null)))
    workReceived now throws newWp
    armTimer

/-- Whether a submission is accepted: the result tells, where it is a truth value. -/
def accepted (isSuccess : Bool) (jRes : Json) : Option Bool := do
  if isSuccess then
    let result ← jRes.member "result"
    return if convertibleToBool result then toBool result else true
  else return false

/-- A response to `eth_submitWork`. -/
def solutionResponse (id : BitVec 32) (isSuccess : Bool) (jRes : Json) : GetworkM Unit := do
  let isSuccess ← expect (accepted isSuccess jRes)
  let delay := (now - (← get).pendingTstamp).tdiv 1000000
  let callback :=
    if isSuccess then .onSolutionAccepted delay (id - 40) false else .onSolutionRejected delay (id - 40)
  modify fun c => { c with raised := c.raised ++ [callback] }

/-- `processResponse`. -/
def processResponse (jRes : Json) : GetworkM Unit := do
  if ← expect (jRes.isMember "id") then
    let c ← get
    let id ← expect ((c.pendingJReq.get "id" (.int 0)).bind Json.asUInt)
    let isSuccess := (← expect (jRes.get "error" .null)).empty
    if ¬ isSuccess then
      let _ ← expect (processError rt jRes)
    if id = 0 ∨ id = 1 then workResponse rt now throws isSuccess jRes
    else if id = 9 then return
    else if 40 ≤ id ∧ id ≤ c.solutionSubmittedMaxId then solutionResponse now id isSuccess jRes

/-- "Test validity of chunk and process". -/
def processBody (line : List Char) : GetworkM Unit := do
  match rt.parse line with
  | some jRes => processResponse rt now throws jRes
  | none => pure ()

/-- The loop over the lines of a response.  The result says whether it is valid; if not, the client
has disconnected.  Each line takes up two characters at least, so there is fuel for all of them. -/
def readLines : ℕ → ℕ → Bool → List Char → GetworkM Bool
  | 0, _, _, _ => return true
  | fuel + 1, linenum, isHeader, rxMessage => do
    match splitLine rxMessage with
    | none => return true
    | some (line, rest) =>
      if line = [] then
        if (splitLine rest).isSome then readLines fuel (linenum + 1) false rest
        else
          processBody rt now throws (rest.filter (· ≠ '\n'))
          return true
      else if isHeader ∧ linenum = 0 ∧ ¬ statusOk line then
        disconnect
        return false
      else
        if ¬ isHeader then processBody rt now throws line
        readLines fuel (linenum + 1) isHeader rest

/-- "Is there anything else in the queue". -/
def sendNext : GetworkM Unit := do
  if (← get).txQueue ≠ [] then beginConnect
  else modify fun c => { c with txPending := false }

/-- `handle_read`. -/
def handleRead : Received → GetworkM Unit
  | .response rxMessage => do
    if rxMessage = [] then disconnect
    else if ← readLines rt now throws rxMessage.length 0 true rxMessage then sendNext
  | .failed => disconnect
  | .aborted => pure ()

end Responses

/-- What can happen: a call of the pool manager, the end of an operation, the timer running out, or
the handler of that.
`throws` tells what the work handler throws at. -/
inductive Event where
  | connect
  | disconnect
  | submitHashrate (rate : BitVec 64) (id : List Char)
  | submitSolution (solution : Solution)
  | resolved (endpoints : Option ℕ)
  | connected (now : ℤ) (outcome : Outcome)
  | written (outcome : Sent)
  | read (now : ℤ) (throws : WorkPackage → Bool) (outcome : Received)
  | elapse
  | expired (now : ℤ)

section Runs

variable (w : Writer) (rt : Runtime)

/-- The handler `x` is run if what it waits for, `op`, has been started. -/
def complete (op : Client → Bool) (done : Client → Client) (x : GetworkM Unit) : GetworkM Unit := do
  if op (← get) then
    modify done
    x

/-- One step. -/
def act : Event → GetworkM Unit
  | .connect => connect w
  | .disconnect => disconnect
  | .submitHashrate rate id => submitHashrate w rate id
  | .submitSolution solution => submitSolution w solution
  | .resolved endpoints => complete Client.resolveOp (fun c => { c with resolveOp := false }) (handleResolve w endpoints)
  | .connected now outcome =>
    complete Client.connectOp (fun c => { c with connectOp := false }) (handleConnect rt now outcome)
  | .written outcome => complete Client.writeOp (fun c => { c with writeOp := false }) (handleWrite outcome)
  | .read now throws outcome =>
    complete Client.readOp (fun c => { c with readOp := false }) (handleRead rt now throws outcome)
  | .elapse => complete Client.timer (fun c => { c with timer := false, elapsed := c.elapsed + 1 }) (pure ())
  | .expired now =>
    complete (fun c => c.elapsed ≠ 0) (fun c => { c with elapsed := c.elapsed - 1 }) (getworkTimerElapsed w now)

/-- One step of a run, which ends with `disconnect()` or an exception. -/
def Client.next (c : Client) (e : Event) : Client :=
  if c.ended then c
  else
    match act w rt e c with
    | .ok _ c' => c'
    | .error _ c' => { c' with ended := true }

end Runs

end Getwork
end EtcMiner
