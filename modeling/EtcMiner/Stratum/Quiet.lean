/-
# Handlers that leave the connection alone

Most handlers of the client send, receive, keep time and post a disconnect, and change
nothing of where the connection stands: socket, flags, operations under way and stratum
mode.  `Quiet l l'` says that of the way from `l` to `l'`.  It is a preorder that the small
writes keep, so the handlers keep it by instance search.

What is left is the connection itself: `connect`, `disconnect`, `disconnectFinalize`,
`startConnect`, `resolveHandler`, `connectHandler`, and the branch of the tick that closes
the socket (`EtcMiner.Stratum.Teardown`).
-/

import EtcMiner.Stratum.Frame
import EtcMiner.Stratum.Link

namespace EtcMiner
namespace Stratum

open Common Eth Lib Pool

-- the handlers are long sequences
set_option synthInstance.maxSize 100000

/-- What the handlers in the queue are told apart by.  A tick that is aborted does nothing. -/
inductive Kind where
  | disconnect
  | disconnectFinalize
  | startConnect
  | resolveHandler
  | connectHandler
  | tick
  | shutdown
  | other
deriving DecidableEq

/-- The kind of a handler. -/
def Handler.kind : Handler → Kind
  | .disconnect => .disconnect
  | .disconnectFinalize => .disconnectFinalize
  | .startConnect => .startConnect
  | .resolveHandler _ => .resolveHandler
  | .connectHandler _ _ => .connectHandler
  | .workloopTimerElapsed false => .tick
  | .onSSLShutdownCompleted => .shutdown
  | _ => .other

/-- The kinds that a quiet handler posts. -/
def Kind.isQuiet (k : Kind) : Bool := k = .disconnect ∨ k = .other

/-- The handlers of the pool manager other than `onDisconnected`. -/
def Callback.isQuiet : Callback → Bool
  | .onDisconnected => false
  | _ => true

namespace Link

/-- The kinds of the handlers in the queue. -/
def kinds (l : Link) : List Kind := l.queue.map Handler.kind

/-- The modes of the login requests, written or waiting. -/
def requests (l : Link) : List ℕ := l.logins ++ l.txLogins

/-- The mode of the connection. -/
def mode (l : Link) : ℕ := l.client.conn.stratumMode

/-- The connection stands in `l'` where it stood in `l`. -/
structure Quiet (l l' : Link) : Prop where
  uri : l'.uri = l.uri
  connSet : l'.connSet = l.connSet
  responds : l'.responds = l.responds
  connected : l'.connected = l.connected
  connecting : l'.connecting = l.connecting
  disconnecting : l'.disconnecting = l.disconnecting
  socket : l'.socket = l.socket
  resolveOp : l'.resolveOp = l.resolveOp
  connectOp : l'.connectOp = l.connectOp
  shutdownOp : l'.shutdownOp = l.shutdownOp
  attempts : l'.attempts = l.attempts
  modeSteps : l'.modeSteps = l.modeSteps
  mode : l'.mode = l.mode
  confirmed : l.client.conn.stratumModeConfirmed = true → l'.client.conn.stratumModeConfirmed = true
  unrecoverable : l.client.conn.unrecoverable = true → l'.client.conn.unrecoverable = true
  timer : l.timer = .armed → l'.timer = .armed
  logins : l.logins <+: l'.logins
  requests : l'.requests.Sublist l.requests
  queue : ∃ hs, l'.kinds = l.kinds ++ hs ∧ ∀ k ∈ hs, k.isQuiet = true
  raised : ∃ cs, l'.raised = l.raised ++ cs ∧ ∀ c ∈ cs, c.isQuiet = true

theorem Quiet.refl (l : Link) : Quiet l l where
  uri := rfl
  connSet := rfl
  responds := rfl
  connected := rfl
  connecting := rfl
  disconnecting := rfl
  socket := rfl
  resolveOp := rfl
  connectOp := rfl
  shutdownOp := rfl
  attempts := rfl
  modeSteps := rfl
  mode := rfl
  confirmed := id
  unrecoverable := id
  timer := id
  logins := List.prefix_rfl
  requests := List.Sublist.refl _
  queue := ⟨[], by simp, by simp⟩
  raised := ⟨[], by simp, by simp⟩

theorem Quiet.trans {l₀ l l' : Link} (h : Quiet l₀ l) (h' : Quiet l l') : Quiet l₀ l' where
  uri := h'.uri.trans h.uri
  connSet := h'.connSet.trans h.connSet
  responds := h'.responds.trans h.responds
  connected := h'.connected.trans h.connected
  connecting := h'.connecting.trans h.connecting
  disconnecting := h'.disconnecting.trans h.disconnecting
  socket := h'.socket.trans h.socket
  resolveOp := h'.resolveOp.trans h.resolveOp
  connectOp := h'.connectOp.trans h.connectOp
  shutdownOp := h'.shutdownOp.trans h.shutdownOp
  attempts := h'.attempts.trans h.attempts
  modeSteps := h'.modeSteps.trans h.modeSteps
  mode := h'.mode.trans h.mode
  confirmed hc := h'.confirmed (h.confirmed hc)
  unrecoverable hu := h'.unrecoverable (h.unrecoverable hu)
  timer ht := h'.timer (h.timer ht)
  logins := h.logins.trans h'.logins
  requests := h'.requests.trans h.requests
  queue := by
    obtain ⟨hs, hq, hquiet⟩ := h.queue
    obtain ⟨hs', hq', hquiet'⟩ := h'.queue
    refine ⟨hs ++ hs', by rw [hq', hq, List.append_assoc], fun k hk => ?_⟩
    exact (List.mem_append.1 hk).elim (hquiet k) (hquiet' k)
  raised := by
    obtain ⟨cs, hr, hquiet⟩ := h.raised
    obtain ⟨cs', hr', hquiet'⟩ := h'.raised
    refine ⟨cs ++ cs', by rw [hr', hr, List.append_assoc], fun c hc => ?_⟩
    exact (List.mem_append.1 hc).elim (hquiet c) (hquiet' c)

/-- A quiet handler that throws has been quiet until then, and no teardown is at fault. -/
def Calm (l : Link) (e : Crash) (l' : Link) : Prop := Quiet l l' ∧ e ≠ .nullConn true

section Frame

variable {l₀ : Link} (rt : Runtime) (now : ℤ)

/-- A write that is quiet from every state. -/
theorem keeps_quiet {f : Link → Link} (h : ∀ l, Quiet l (f l)) :
    Keeps (Quiet l₀) (Calm l₀) (modify f : LinkM PUnit) := keeps_modify fun l hl => hl.trans (h l)

instance {α : Type} : Keeps (Quiet l₀) (Calm l₀) (throw (.nullConn false) : LinkM α) :=
  keeps_throw fun _ h => ⟨h, by decide⟩

instance {α : Type} : Keeps (Quiet l₀) (Calm l₀) (throw .emptyQueue : LinkM α) :=
  keeps_throw fun _ h => ⟨h, by decide⟩

instance : Keeps (Quiet l₀) (Calm l₀) (useConn false) := by
  unfold useConn
  infer_instance

theorem quiet_post {h : Handler} (hq : h.kind.isQuiet = true) : Keeps (Quiet l₀) (Calm l₀) (post h) := by
  refine keeps_quiet fun l => { Quiet.refl l with queue := ⟨[h.kind], ?_, by simpa using hq⟩ }
  simp [kinds]

instance : Keeps (Quiet l₀) (Calm l₀) (post .disconnect) := quiet_post rfl

instance (jRes : Json) : Keeps (Quiet l₀) (Calm l₀) (post (.processResponse jRes)) := quiet_post rfl

theorem quiet_modifyClient {f : Client → Client} (hmode : ∀ c, (f c).conn = c.conn) :
    Keeps (Quiet l₀) (Calm l₀) (modifyClient f) := by
  refine keeps_quiet fun l => { Quiet.refl l with mode := ?_, confirmed := ?_, unrecoverable := ?_ }
  · exact congrArg Conn.stratumMode (hmode l.client)
  · exact fun h => (congrArg Conn.stratumModeConfirmed (hmode l.client)).trans h
  · exact fun h => (congrArg Conn.unrecoverable (hmode l.client)).trans h

instance : Keeps (Quiet l₀) (Calm l₀) (enqueueResponsePlea now) := quiet_modifyClient fun _ => rfl

instance : Keeps (Quiet l₀) (Calm l₀) (clearResponsePleas now) := quiet_modifyClient fun _ => rfl

instance : Keeps (Quiet l₀) (Calm l₀) Link.markUnrecoverable :=
  keeps_quiet fun l => { Quiet.refl l with unrecoverable := fun _ => rfl }

instance : Keeps (Quiet l₀) (Calm l₀) (arm .armed) := by
  refine keeps_quiet fun l => { Quiet.refl l with timer := fun _ => rfl, queue := ?_ }
  by_cases htimer : l.timer = .idle
  · exact ⟨[], by simp [kinds, htimer], by simp⟩
  · exact ⟨[.other], by simp [kinds, htimer, Handler.kind], by simp [Kind.isQuiet]⟩

instance : Keeps (Quiet l₀) (Calm l₀) popEndpoint := by
  refine Keeps.bind inferInstance fun l => ?_
  cases l.endpoints with
  | zero => infer_instance
  | succ n => exact keeps_quiet fun l => { Quiet.refl l with }

instance : Keeps (Quiet l₀) (Calm l₀) dropQueue :=
  keeps_quiet fun l => { Quiet.refl l with requests := by simp [Link.requests] }

instance : Keeps (Quiet l₀) (Calm l₀) sendSocketData := by
  refine Keeps.bind inferInstance fun l => ?_
  split_ifs
  · exact Keeps.bind inferInstance fun _ => keeps_quiet fun l => { Quiet.refl l with }
  · refine Keeps.bind inferInstance fun _ => keeps_quiet fun l => { Quiet.refl l with
      logins := List.prefix_append _ _, requests := ?_ }
    simp [Link.requests]

instance (jReq : Json) : Keeps (Quiet l₀) (Calm l₀) (send jReq) := by
  refine Keeps.bind (keeps_quiet fun l => { Quiet.refl l with }) fun _ =>
    Keeps.bind inferInstance fun l => ?_
  split_ifs
  · infer_instance
  · exact Keeps.bind (keeps_quiet fun l => { Quiet.refl l with }) fun _ => inferInstance

theorem quiet_raise {c : Callback} (hc : c.isQuiet = true) : Keeps (Quiet l₀) (Calm l₀) (raise c) :=
  keeps_quiet fun l => { Quiet.refl l with raised := ⟨[c], rfl, by simpa using hc⟩ }

instance (e : Effect) : Keeps (Quiet l₀) (Calm l₀) (perform now e) := by
  cases e with
  | send jReq => exact inferInstanceAs (Keeps _ _ (send jReq))
  | postDisconnect => exact inferInstanceAs (Keeps _ _ (post .disconnect))
  | onConnected =>
    exact Keeps.bind (keeps_quiet fun l => { Quiet.refl l with }) fun _ => quiet_raise rfl
  | onSolutionAccepted responseDelayMs minerIndex isStale => exact quiet_raise rfl
  | onSolutionRejected responseDelayMs minerIndex => exact quiet_raise rfl
  | onWorkReceived w => exact quiet_raise rfl

instance (es : List Effect) : Keeps (Quiet l₀) (Calm l₀) (performAll now es) := by
  induction es with
  | nil => exact inferInstanceAs (Keeps _ _ (pure ()))
  | cons e es ih => exact Keeps.bind inferInstance fun _ => ih

end Frame

/-- The connection of the message handler: the mode stays, and it is only ever confirmed or
given up. -/
structure Since (conn : Conn) (c : Client) : Prop where
  mode : c.conn.stratumMode = conn.stratumMode
  confirmed : conn.stratumModeConfirmed = true → c.conn.stratumModeConfirmed = true
  unrecoverable : conn.unrecoverable = true → c.conn.unrecoverable = true

instance (conn : Conn) : StableJob (Since conn) fun _ => Since conn where
  stdException h := h
  foreignException h := h
  nullSession h _ := h
  caught h := h
  effects h _ := ⟨h.1, h.2, h.3⟩
  session h _ := ⟨h.1, h.2, h.3⟩
  currentTimestamp h _ := ⟨h.1, h.2, h.3⟩
  authpending h _ := ⟨h.1, h.2, h.3⟩
  pleas h _ := ⟨h.1, h.2, h.3⟩
  unrecoverable h := ⟨h.1, h.2, fun _ => rfl⟩
  confirmed h := ⟨h.1, fun _ => rfl, h.3⟩
  current h _ := ⟨h.1, h.2, h.3⟩
  newjobprocessed h _ := ⟨h.1, h.2, h.3⟩
  message h _ := ⟨h.1, h.2, h.3⟩
  solutionSubmittedMaxId h _ _ := ⟨h.1, h.2, h.3⟩

section Handlers

variable {l₀ : Link} (rt : Runtime) (now : ℤ)

theorem quiet_of_since {l : Link} {c : Client} (h : Since l.client.conn c) :
    Quiet l { l with client := c } :=
  { Quiet.refl l with mode := h.mode, confirmed := h.confirmed, unrecoverable := h.unrecoverable }

instance (x : ClientM Unit) [hx : ∀ conn, Preserves (Since conn) x] :
    Keeps (Quiet l₀) (Calm l₀) (onClient x) := by
  refine ⟨fun l hl => ?_⟩
  have hends := (hx l.client.conn).ends { l.client with effects := [] } ⟨rfl, id, id⟩
  unfold Ends at hends ⊢
  unfold onClient
  cases hrun : x { l.client with effects := [] } with
  | ok u c =>
    rw [hrun] at hends
    exact hl.trans (quiet_of_since hends)
  | error e c =>
    rw [hrun] at hends
    cases e <;> exact ⟨hl.trans (quiet_of_since hends), by decide⟩

/-- **The message handler** is quiet. -/
instance (x : ClientM Unit) [∀ conn, Preserves (Since conn) x] : Keeps (Quiet l₀) (Calm l₀) (call now x) :=
  Keeps.bind inferInstance fun _ => Keeps.bind inferInstance fun _ => inferInstance

instance : Keeps (Quiet l₀) (Calm l₀) (keepAlive now) := by
  refine Keeps.bind inferInstance fun l => ?_
  split_ifs <;> try infer_instance
  split <;> infer_instance

instance : Keeps (Quiet l₀) (Calm l₀) (giveUp now) := by
  unfold giveUp
  infer_instance

instance : Keeps (Quiet l₀) (Calm l₀) (checkConnected now) := by
  unfold checkConnected
  infer_instance

instance : Keeps (Quiet l₀) (Calm l₀) recvSocketData :=
  Keeps.bind inferInstance fun _ => keeps_quiet fun l => { Quiet.refl l with }

instance (lines : List (List Char)) : Keeps (Quiet l₀) (Calm l₀) (processLinesNull rt lines) := by
  induction lines with
  | nil => exact inferInstanceAs (Keeps _ _ (pure ()))
  | cons line lines ih =>
    refine Keeps.bind inferInstance fun l => ?_
    split <;> infer_instance

instance (rxMessage : List Char) : Keeps (Quiet l₀) (Calm l₀) (receiveNull rt rxMessage) :=
  Keeps.bind inferInstance fun _ => Keeps.bind (quiet_modifyClient fun _ => rfl) fun _ => inferInstance

instance (rxMessage : Option (List Char)) :
    Keeps (Quiet l₀) (Calm l₀) (onRecvSocketDataCompleted rt now rxMessage) := by
  cases rxMessage with
  | none =>
    unfold onRecvSocketDataCompleted
    dsimp only
    infer_instance
  | some rxMessage =>
    unfold onRecvSocketDataCompleted
    infer_instance

instance (ec ssl : Bool) : Keeps (Quiet l₀) (Calm l₀) (onSendSocketDataCompleted now ec ssl) := by
  have hpending : Keeps (Quiet l₀) (Calm l₀) (modify fun l : Link => { l with txPending := false } : LinkM PUnit) :=
    keeps_quiet fun l => { Quiet.refl l with }
  have hstamp : Keeps (Quiet l₀) (Calm l₀) (modify fun l : Link => { l with lastTxStamp := now } : LinkM PUnit) :=
    keeps_quiet fun l => { Quiet.refl l with }
  unfold onSendSocketDataCompleted
  dsimp only
  infer_instance

instance (jRes : Json) : Keeps (Quiet l₀) (Calm l₀) (processFake rt now jRes) := by
  refine Keeps.bind inferInstance fun l => ?_
  split_ifs <;> try infer_instance
  refine Keeps.bind inferInstance fun l => ?_
  split <;> infer_instance

end Handlers

end Link

end Stratum
end EtcMiner
