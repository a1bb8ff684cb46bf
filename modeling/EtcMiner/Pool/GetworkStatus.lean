/-
# The status of a getwork client

`EthGetworkClient` (`libpool/getwork/EthGetworkClient.cpp`) as the pool manager sees it: its
two flags, its connection, and the handlers it calls.  The requests and the responses
themselves are left out, and so is the socket: a response is a job, or makes the client
disconnect.

Unlike the stratum client this one does not remember that it is disconnected: every call of
`disconnect()` calls the `onDisconnected` handler.
-/

import EtcMiner.Pool.PoolManager

namespace EtcMiner
namespace Pool

open Eth Stratum

/-- The flags of `EthGetworkClient`, and whether it has a connection. -/
structure GetworkStatus where
  conn : Conn
  connSet : Bool := true
  connecting : Bool := false
  connected : Bool := false

namespace GetworkStatus

/-- `connect()`. -/
def connect (g : GetworkStatus) : Option (GetworkStatus × List Callback) :=
  if g.connecting then some (g, [])
  else if g.connSet then some ({ g with connecting := true }, [])
  else none

/-- `disconnect()`.  The duration of a session is added to the connection; the handler unsets
it. -/
def disconnect (g : GetworkStatus) : Option (GetworkStatus × List Callback) :=
  if g.connected ∧ ¬ g.connSet then none
  else some ({ g with connSet := false, connecting := false, connected := false }, [.onDisconnected])

/-- `handle_connect` without an error. -/
def handleConnect (g : GetworkStatus) : Option (GetworkStatus × List Callback) :=
  if g.connecting then some ({ g with connecting := false, connected := true }, [.onConnected])
  else some (g, [])

/-- What happens to the client: its connection is made, it fails or ends, or a job arrives. -/
inductive Event where
  | connected
  | failed
  | work (w : WorkPackage)

/-- One step. -/
def act : Event → GetworkStatus → Option (GetworkStatus × List Callback)
  | .connected, g => g.handleConnect
  | .failed, g => g.disconnect
  | .work w, g => some (g, [.onWorkReceived w])

end GetworkStatus

/-- The getwork client. -/
def getworkClient : PoolClient GetworkStatus Unit GetworkStatus.Event where
  create _ _ conn := { conn := conn }
  conn g := g.conn
  isConnected g := g.connected
  connect _ g := g.connect
  disconnect _ g := g.disconnect
  submitSolution _ _ g := some (g, [])
  act := GetworkStatus.act

/-- The connection to the port 8545 of a host. -/
def getworkConnection (id : ℕ) (host : String) : Connection :=
  ⟨id, {
    uri := "http://".toList ++ host.toList ++ ":8545".toList
    scheme := ⟨.getwork, .none, 0⟩
    host := host.toList
    port := 8545
    hostType := .dns }⟩

/-- A manager of getwork connections that has just been started. -/
def getworkManager (settings : PoolSettings) (connections : List Connection) :
    PoolManager countingKeccak GetworkStatus :=
  .started settings connections (fun _ => { stratumMode := 999 }) .init

end Pool
end EtcMiner
