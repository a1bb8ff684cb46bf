/-
# The pool manager

`PoolManager` in `libpool/PoolManager.cpp`: the list of connections with its index, the
client of the connection in use, and what is started and stopped when a client connects or
disconnects.

A client is whatever has the virtual functions of `PoolClient` (`libpool/PoolClient.h`).  A
call into it returns with the handlers of the manager it has called, and these run.
Everything runs on the thread of the `io_service` but the calls of `stop`, so the manager
takes one step at a time: a task it has posted, a handler of the client, an expiry of a
timer, or a call from outside.  `rotateConnect` and the handlers of the timers wait in
`tasks` in the order in which they were posted.

A function that throws leaves what it has written (`Failure.error`); an exception in a
handler, or one that leaves the client, ends the run (`Failure.crash`).

`waiting` is the loop in `stop`, which waits for the disconnection.  `selected`,
`rotations`, `connects`, `sessions`, `sigterms`, `dismissed`, `farm` and `submitted` are no
variables of the code.  They record the connections given to new clients, how often
`rotateConnect` was run, how often `connect`, the `onConnected` handler and
`raise(SIGTERM)` were called, whether another connection has become the active one or the
client has disconnected, the calls of the farm, and the solutions submitted with the
connections of the clients.
-/

import EtcMiner.Lib.Handler
import EtcMiner.Lib.Run
import EtcMiner.Pool.WorkHandler
import EtcMiner.Stratum.Link

namespace EtcMiner
namespace Pool

open Common Eth Ethash Lib

/-- A connection: the `URI` object that a pointer leads to.  What changes of the object is in
`PoolManager.conns`. -/
structure Connection where
  id : ℕ
  uri : URI
deriving DecidableEq

/-- `PoolSettings`. -/
structure PoolSettings where
  connectionMaxRetries : ℕ := 3
  delayBeforeRetry : ℕ := 0
  poolFailoverTimeout : ℕ := 0

/-- The virtual functions of `PoolClient`.  A call returns the client and the handlers it has
called, in order, or throws.  `act` is a step of the client itself. -/
structure PoolClient (γ τ ε : Type) where
  create : τ → URI → Stratum.Conn → γ
  conn : γ → Stratum.Conn
  isConnected : γ → Bool
  connect : τ → γ → Option (γ × List Stratum.Callback)
  disconnect : τ → γ → Option (γ × List Stratum.Callback)
  submitSolution : τ → Solution → γ → Option (γ × List Stratum.Callback)
  act : ε → γ → Option (γ × List Stratum.Callback)

/-- `p_client`, with the `m_conn` of the base class. -/
structure Serving (γ : Type) where
  connection : Option Connection
  impl : γ

/-- The handlers of the manager that wait in the `io_service`. -/
inductive Task where
  | rotateConnect
  | failovertimerElapsed
  | reconnecttimerElapsed
deriving DecidableEq

/-- The calls of the farm.  A package comes from the client of a connection. -/
inductive FarmCall where
  | start
  | stop
  | pause
  | resume
  | setWork (source : Option Connection) (w : WorkPackage)

/-- `isMining()` after a call. -/
def FarmCall.mining : FarmCall → Bool → Bool
  | .start, _ => true
  | .stop, _ => false
  | _, mining => mining

/-- `paused()` after a call. -/
def FarmCall.paused : FarmCall → Bool → Bool
  | .pause, _ => true
  | .resume, _ => false
  | _, paused => paused

/-- The list of connections, the place in it, and how often the active one was tried. -/
structure Course where
  connections : List Connection
  activeConnectionIdx : ℕ := 0
  connectionAttempt : ℕ := 0
  connectionSwitches : ℕ := 0

namespace Course

/-- `getActiveConnection()`. -/
def getActiveConnection (k : Course) : Option Connection := k.connections[k.activeConnectionIdx]?

/-- "Check we're within bounds". -/
def checkBounds (k : Course) : Course :=
  if k.connections.length ≤ k.activeConnectionIdx then { k with activeConnectionIdx := 0 } else k

/-- The active connection is erased. -/
def eraseActive (k : Course) : Course :=
  { k with connections := k.connections.eraseIdx k.activeConnectionIdx }

/-- `m_connectionAttempt` has reached `m_Settings.connectionMaxRetries`, if there is a limit. -/
def exceedsRetries (connectionMaxRetries : ℕ) (k : Course) : Bool :=
  connectionMaxRetries ≠ 0 && connectionMaxRetries ≤ k.connectionAttempt

/-- The active connection is discarded if it is marked unrecoverable, or if it is the only one
and has been tried often enough. -/
def discard (connectionMaxRetries : ℕ) (unrecoverable : Bool) (k : Course) : Course :=
  if unrecoverable then
    { { k.eraseActive with connectionAttempt := 0 }.checkBounds with
      connectionSwitches := k.connectionSwitches + 1 }
  else if k.connections.length = 1 ∧ k.exceedsRetries connectionMaxRetries then k.eraseActive
  else k

/-- "Rotate connections if above max attempts threshold". -/
def rotate (connectionMaxRetries : ℕ) (k : Course) : Course :=
  if k.connections ≠ [] ∧ k.exceedsRetries connectionMaxRetries then
    { { k with
        connectionAttempt := 0, activeConnectionIdx := k.activeConnectionIdx + 1 }.checkBounds with
      connectionSwitches := k.connectionSwitches + 1 }
  else k

/-- The connection at `idx` is removed, and the index follows the active one. -/
def remove (idx : ℕ) (k : Course) : Course :=
  { k with
    connections := k.connections.eraseIdx idx
    activeConnectionIdx :=
      if idx < k.activeConnectionIdx then k.activeConnectionIdx - 1 else k.activeConnectionIdx }

/-- The connection at `idx` becomes the active one. -/
def switch (idx : ℕ) (k : Course) : Course :=
  { k with
    activeConnectionIdx := idx, connectionAttempt := 0
    connectionSwitches := k.connectionSwitches + 1 }

end Course

/-- `PoolManager`. -/
structure PoolManager (keccak256 : Hash 8 → Hash 8) (γ : Type) extends Course where
  settings : PoolSettings
  conns : ℕ → Stratum.Conn
  work : WorkHandler keccak256
  running : Bool := false
  stopping : Bool := false
  asyncPending : Bool := false
  waiting : Bool := false
  client : Option (Serving γ) := none
  failovertimer : Bool := false
  reconnecttimer : Bool := false
  tasks : List Task := []
  mining : Bool := false
  paused : Bool := false
  selected : List Connection := []
  rotations : ℕ := 0
  connects : ℕ := 0
  sessions : ℕ := 0
  sigterms : ℕ := 0
  dismissed : Bool := false
  farm : List FarmCall := []
  submitted : List (Option Connection × Solution) := []

/-- How a function of the manager fails. -/
inductive Failure where
  | error (what : String)
  | crash
deriving DecidableEq

variable {keccak256 : Hash 8 → Hash 8} {γ τ ε : Type}

/-- A function of the manager. -/
abbrev ManagerM (keccak256 : Hash 8 → Hash 8) (γ : Type) := EStateM Failure (PoolManager keccak256 γ)

namespace PoolManager

/-- A change of the list or of the place in it. -/
def modifyCourse (f : Course → Course) : ManagerM keccak256 γ Unit :=
  modify fun m => { m with toCourse := f m.toCourse }

/-- `g_io_service.post(...)`. -/
def post (t : Task) : ManagerM keccak256 γ Unit := modify fun m => { m with tasks := m.tasks ++ [t] }

/-- `Farm::f().…()`. -/
def callFarm (c : FarmCall) : ManagerM keccak256 γ Unit :=
  modify fun m => { m with mining := c.mining m.mining, paused := c.paused m.paused, farm := m.farm ++ [c] }

/-- The `onConnected` handler. -/
def onConnected : ManagerM keccak256 γ Unit := do
  modify fun m => { m with
    connectionAttempt := 0
    work := { m.work with currentWp := { m.work.currentWp with job := [], header := fun _ => 0 } }
    failovertimer := m.activeConnectionIdx ≠ 0 && m.settings.poolFailoverTimeout ≠ 0
    sessions := m.sessions + 1 }
  let m ← get
  if ¬ m.mining then callFarm .start
  else if m.paused then callFarm .resume
  modify fun m => { m with asyncPending := false }

/-- The `onDisconnected` handler. -/
def onDisconnected : ManagerM keccak256 γ Unit := do
  modify fun m => { m with
    client := m.client.map fun c => { c with connection := none }
    work := { m.work with currentWp := { m.work.currentWp with header := fun _ => 0 } }
    failovertimer := false
    dismissed := true }
  let m ← get
  if m.stopping then
    if m.mining then callFarm .stop
    modify fun m => { m with running := false }
  else
    modify fun m => { m with asyncPending := true }
    callFarm .pause
    post .rotateConnect

section Client

variable (pc : PoolClient γ τ ε)

/-- `p_client && p_client->isConnected()`. -/
def isConnected (m : PoolManager keccak256 γ) : Bool := (m.client.map fun c => pc.isConnected c.impl).getD false

/-- "Farm::f().setWork(m_currentWp)", for a job of the client `c`. -/
def deliver (c : Serving γ) (work : WorkHandler keccak256) (newWp : Option WorkPackage) :
    ManagerM keccak256 γ Unit := do
  modify fun m => { m with work := work }
  match newWp with
  | none => return
  | some newWp => callFarm (.setWork c.connection newWp)

/-- The `onWorkReceived` handler. -/
def workReceived (w : WorkPackage) : ManagerM keccak256 γ Unit := do
  let m ← get
  match m.client with
  | none => return
  | some c =>
    -- the connection is asked for its mode only if there was a job before
    if ¬ w.IsVoid ∧ m.work.currentWp.epoch ≠ -1 ∧ c.connection.isNone then throw .crash
    -- the exception of `showMiningAt` leaves the thread of the `io_service`
    else if showsMiningAt (pc.conn c.impl).stratumMode m.work.currentWp w ∧ showMiningAt w = none then throw .crash
    else
      let r := onWorkReceived (pc.conn c.impl).stratumMode m.work w
      deliver c r.1 r.2

/-- A handler is called.  Those of a solution only count it. -/
def handle : Stratum.Callback → ManagerM keccak256 γ Unit
  | .onConnected => onConnected
  | .onDisconnected => onDisconnected
  | .onWorkReceived w => workReceived pc w
  | _ => pure ()

/-- The handlers in turn. -/
def handleAll : List Stratum.Callback → ManagerM keccak256 γ Unit
  | [] => pure ()
  | c :: cs => do
    handle pc c
    handleAll cs

/-- The client after a call, and what it has written into its connection. -/
def stored (c : Serving γ) (impl : γ) (m : PoolManager keccak256 γ) : PoolManager keccak256 γ :=
  { m with
    client := some { c with impl := impl }
    conns := match c.connection with
      | none => m.conns
      | some k => fun id => if id = k.id then pc.conn impl else m.conns id }

/-- `p_client->…()`. -/
def call (f : γ → Option (γ × List Stratum.Callback)) : ManagerM keccak256 γ Unit := do
  match (← get).client with
  | none => throw .crash
  | some c =>
    match f c.impl with
    | none => throw .crash
    | some (impl, raised) =>
      modify (stored pc c impl)
      handleAll pc raised

/-- `p_client->connect()`. -/
def connect (t : τ) : ManagerM keccak256 γ Unit := do
  modify fun m => { m with connects := m.connects + 1 }
  call pc (pc.connect t)

/-- `p_client->disconnect()`. -/
def disconnect (t : τ) : ManagerM keccak256 γ Unit := call pc (pc.disconnect t)

end Client

/-- "No more connections to try" or "'exit' failover just got hit". -/
def exit : ManagerM keccak256 γ Unit := do
  if (← get).mining then callFarm .stop
  modify fun m => { m with running := false, sigterms := m.sigterms + 1 }

section Client

variable (pc : PoolClient γ τ ε)

/-- A client for the connection `c` takes the place of the one before. -/
def selecting (t : τ) (c : Connection) (m : PoolManager keccak256 γ) : PoolManager keccak256 γ :=
  { m with
    client := some ⟨some c, pc.create t c.uri (m.conns c.id)⟩
    connectionAttempt := m.connectionAttempt + 1
    selected := m.selected ++ [c]
    dismissed := false }

/-- A new client is made for the connection `c`, and connected now or later. -/
def select (t : τ) (c : Connection) : ManagerM keccak256 γ Unit := do
  modify (selecting pc t c)
  let m ← get
  if 1 < m.connectionAttempt ∧ 0 < m.settings.delayBeforeRetry then
    modify fun m => { m with reconnecttimer := true }
  else connect pc t

/-- `rotateConnect()` from the choice of a connection on. -/
def selectActive (t : τ) : ManagerM keccak256 γ Unit := do
  match (← get).getActiveConnection with
  -- the index is within bounds by now, so the list is empty
  | none => exit
  | some c => if c.uri.host ≠ "exit".toList then select pc t c else exit

/-- `rotateConnect()`. -/
def rotateConnect (t : τ) : ManagerM keccak256 γ Unit := do
  modify fun m => { m with rotations := m.rotations + 1 }
  if (← get).isConnected pc then return
  modifyCourse Course.checkBounds
  let m ← get
  match m.getActiveConnection with
  | none => throw .crash
  | some c =>
    modifyCourse fun k =>
      (k.discard m.settings.connectionMaxRetries (m.conns c.id).unrecoverable).rotate
        m.settings.connectionMaxRetries
    selectActive pc t

/-- The connection at `idx` becomes the active one, and the client is told to disconnect. -/
def switchTo (t : τ) (idx : ℕ) : ManagerM keccak256 γ Unit := do
  modify fun m => { m with toCourse := m.toCourse.switch idx, dismissed := true }
  disconnect pc t

/-- `failovertimer_elapsed`. -/
def failovertimerElapsed (t : τ) : ManagerM keccak256 γ Unit := do
  let m ← get
  if m.running ∧ m.activeConnectionIdx ≠ 0 then switchTo pc t 0

/-- `reconnecttimer_elapsed`. -/
def reconnecttimerElapsed (t : τ) : ManagerM keccak256 γ Unit := do
  let m ← get
  if m.running ∧ m.client.isSome ∧ ¬ m.isConnected pc then connect pc t

/-- `addConnection(_uri)`. -/
def addConnection (c : Connection) : ManagerM keccak256 γ Unit :=
  modifyCourse fun k => { k with connections := k.connections ++ [c] }

/-- `removeConnection(idx)`. -/
def removeConnection (idx : ℕ) : ManagerM keccak256 γ Unit := do
  let m ← get
  if m.asyncPending then throw (.error "Outstanding operations. Retry ...")
  else if m.connections.length ≤ idx then throw (.error "Index out-of bounds.")
  else if idx = m.activeConnectionIdx then throw (.error "Can't remove active connection")
  else modifyCourse (Course.remove idx)

/-- `setActiveConnectionCommon(idx)`. -/
def setActiveConnectionCommon (t : τ) (idx : ℕ) : ManagerM keccak256 γ Unit := do
  let m ← get
  if m.asyncPending then throw (.error "Outstanding operations. Retry ...")
  else
    modify fun m => { m with asyncPending := true }
    if idx ≠ m.activeConnectionIdx then switchTo pc t idx
    else modify fun m => { m with asyncPending := false }

/-- `setActiveConnection(idx)`. -/
def setActiveConnection (t : τ) (idx : ℕ) : ManagerM keccak256 γ Unit := do
  if (← get).connections.length ≤ idx then throw (.error "Index out-of bounds.")
  else setActiveConnectionCommon pc t idx

/-- `boost::iequals`. -/
def iequals (s s' : List Char) : Bool := s.map Char.toLower = s'.map Char.toLower

/-- `setActiveConnection(_connstring)`. -/
def setActiveConnectionString (t : τ) (connstring : List Char) : ManagerM keccak256 γ Unit := do
  match (← get).connections.findIdx? fun c => iequals c.uri.uri connstring with
  | some idx => setActiveConnectionCommon pc t idx
  | none => throw (.error "Not found.")

/-- The `onSolutionFound` handler. -/
def solutionFound (t : τ) (solution : Solution) : ManagerM keccak256 γ Unit := do
  if (← get).isConnected pc then
    modify fun m => { m with submitted := m.submitted ++ [(m.client.bind Serving.connection, solution)] }
    call pc (pc.submitSolution t solution)

/-- `stop()`, up to the wait for the disconnection. -/
def stop (t : τ) : ManagerM keccak256 γ Unit := do
  if (← get).running then
    modify fun m => { m with asyncPending := true, stopping := true }
    if (← get).isConnected pc then
      disconnect pc t
      modify fun m => { m with waiting := true }
    else
      modify fun m => { m with failovertimer := false, reconnecttimer := false }
      if (← get).mining then callFarm .stop

/-- `stop()` after the wait. -/
def stopped : ManagerM keccak256 γ Unit := do
  let m ← get
  if m.waiting ∧ ¬ m.running then modify fun m => { m with waiting := false, client := none }

/-- The `onMinerRestart` handler. -/
def minerRestart : ManagerM keccak256 γ Unit := do
  if (← get).mining then callFarm .stop
  callFarm .start

/-- A task is run. -/
def perform (t : τ) : Task → ManagerM keccak256 γ Unit
  | .rotateConnect => rotateConnect pc t
  | .failovertimerElapsed => failovertimerElapsed pc t
  | .reconnecttimerElapsed => reconnecttimerElapsed pc t

/-- What can happen. -/
inductive Event (τ ε : Type) where
  | task (t : τ)
  | client (e : ε)
  | failoverExpired
  | reconnectExpired
  | addConnection (c : Connection)
  | removeConnection (idx : ℕ)
  | setActiveConnection (t : τ) (idx : ℕ)
  | setActiveConnectionString (t : τ) (connstring : List Char)
  | solutionFound (t : τ) (solution : Solution)
  | stop (t : τ)
  | stopped
  | minerRestart

/-- One step. -/
def act : Event τ ε → ManagerM keccak256 γ Unit
  | .task t => do
    match (← get).tasks with
    | [] => pure ()
    | task :: tasks =>
      modify fun m => { m with tasks := tasks }
      perform pc t task
  | .client e => do
    if (← get).client.isSome then call pc (pc.act e)
  | .failoverExpired => do
    if (← get).failovertimer then
      modify fun m => { m with failovertimer := false }
      post .failovertimerElapsed
  | .reconnectExpired => do
    if (← get).reconnecttimer then
      modify fun m => { m with reconnecttimer := false }
      post .reconnecttimerElapsed
  | .addConnection c => addConnection c
  | .removeConnection idx => removeConnection idx
  | .setActiveConnection t idx => setActiveConnection pc t idx
  | .setActiveConnectionString t connstring => setActiveConnectionString pc t connstring
  | .solutionFound t solution => solutionFound pc t solution
  | .stop t => stop pc t
  | .stopped => stopped
  | .minerRestart => minerRestart

end Client

/-- The manager after its construction and `start()`. -/
def started (settings : PoolSettings) (connections : List Connection) (conns : ℕ → Stratum.Conn)
    (work : WorkHandler keccak256) : PoolManager keccak256 γ where
  settings := settings
  connections := connections
  conns := conns
  work := work
  running := true
  asyncPending := true
  connectionSwitches := 1
  tasks := [.rotateConnect]

end PoolManager

/-- A run of the manager: where it is, and whether it has crashed. -/
structure ManagerRun (keccak256 : Hash 8 → Hash 8) (γ : Type) where
  manager : PoolManager keccak256 γ
  crashed : Bool := false

/-- One step of a run.  The caller of a function that throws goes on. -/
def ManagerRun.next (pc : PoolClient γ τ ε) (s : ManagerRun keccak256 γ) (e : PoolManager.Event τ ε) :
    ManagerRun keccak256 γ :=
  if s.crashed then s
  else ⟨final (PoolManager.act pc e) s.manager, thrown (PoolManager.act pc e) s.manager = some .crash⟩

end Pool
end EtcMiner
