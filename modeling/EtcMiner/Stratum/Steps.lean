/-
# What a step of the client can do

One handler at a time is taken off the queue and run.  If it returns, it has done one of
the things listed in `Outcome`: it was quiet, or it has moved the connection in one of a
dozen ways (`handle_outcome`).  With the calls of the pool manager and the completions of
operations this lists all steps (`act_move`), and the invariants of the connection are
proved from the list, not from the code (`LinkRun.inv_of_moves`).

`finalized` is what `disconnect_finalize` leaves behind: a connection whose mode is still
to be found out goes down to the next mode (`lowered`), any other is given back to the pool
manager (`finished`), which unsets it.
-/

import EtcMiner.Lib.Run
import EtcMiner.Stratum.Quiet

namespace EtcMiner
namespace Stratum

open Common Eth Lib Pool

namespace Link

/-- `disconnect_finalize()` up to the stratum mode. -/
def torn (l : Link) : Link :=
  { l.closed .null with
    client := { l.client with session := none, authpending := false }
    disconnecting := false
    txPending := false }

/-- "If we got disconnected during autodetection phase". -/
def descends (l : Link) : Bool :=
  !l.client.conn.unrecoverable && !l.client.conn.stratumModeConfirmed && l.responds

/-- The next mode is tried. -/
def lowered (l : Link) : Link :=
  { l.torn with
    modeSteps := l.modeSteps + 1
    client := { l.torn.client with
      conn := { l.client.conn with stratumMode := l.client.conn.stratumMode - 1 } }
    queue := l.torn.queue ++ [.startConnect] }

/-- "There are no more stratum modes to test". -/
def exhausted (l : Link) : Link :=
  { l.torn with
    modeSteps := l.modeSteps + 1
    client := { l.torn.client with conn := { l.client.conn with unrecoverable := true } } }

/-- The client is put back to sleep and the connection given back. -/
def finished (now : ℤ) (l : Link) : Link :=
  { l with
    client := { l.client with pleas := Pleas.clear now, solutionSubmittedMaxId := 0 }
    timer := .infinite
    queue := if l.timer = .idle then l.queue else l.queue ++ [.workloopTimerElapsed true]
    raised := l.raised ++ [.onDisconnected]
    connSet := false }

/-- `disconnect_finalize()`. -/
def finalized (now : ℤ) (l : Link) : Link :=
  if l.descends then if 0 < l.mode then l.lowered else l.exhausted.finished now
  else l.torn.finished now

/-- `disconnect()` with a secure socket: the rest is asynchronous. -/
def shuttingDown (now : ℤ) (l : Link) : Link :=
  { l.down.cancelled with
    shutdownOp := true
    client := { l.client with pleas := l.client.pleas.enqueue now } }

/-- `start_connect()` with an endpoint left. -/
def dialing (now : ℤ) (l : Link) : Link :=
  { l with
    connecting := true
    client := { l.client with
      pleas := (Pleas.clear now).enqueue now
      solutionSubmittedMaxId := 0 }
    socket := .opened
    connectOp := true
    attempts := l.attempts + 1 }

/-- The socket of an attempt that fails is closed. -/
def refused (l : Link) : Link := if l.socket = .opened then l.closed .closed else l

/-- The connection is established, and the login request about to be sent in the mode that
is selected. -/
def loggingIn (now : ℤ) (l : Link) : Link :=
  { l.accepted with
    client := { l.accepted.client with
      conn := selectMode l.uri l.client.conn
      pleas := (Pleas.clear now).enqueue now }
    readOp := true
    txLogins := [(selectMode l.uri l.client.conn).stratumMode] }

/-- `connect()` before the endpoints are looked for. -/
def starting (l : Link) : Link :=
  { l with
    timer := .armed
    queue := if l.timer = .idle then l.queue else l.queue ++ [.workloopTimerElapsed true]
    client := { l.client with authpending := false }
    socket := if l.socket = .null then .closed else l.socket
    endpoints := 0 }

variable {l : Link} {now : ℤ}

theorem useConn_run {teardown : Bool} (hconn : l.connSet = true) : useConn teardown l = .ok () l := by
  unfold useConn
  rw [run_get_bind, if_pos hconn]
  rfl

theorem useConn_unset {teardown : Bool} (hconn : l.connSet = false) :
    useConn teardown l = .error (.nullConn teardown) l := by
  unfold useConn
  rw [run_get_bind, if_neg (by simp [hconn])]
  rfl

theorem lowerMode_run : lowerMode now l.torn = .ok () (l.finalized now) := by
  have hdescends : (¬ l.torn.client.conn.unrecoverable = true ∧
      ¬ l.torn.client.conn.stratumModeConfirmed = true ∧ l.torn.responds = true) ↔
      l.descends = true := by
    simp [descends, torn, closed, cancelled, and_assoc]
  unfold lowerMode finalized
  rw [run_get_bind]
  simp only [hdescends]
  by_cases hd : l.descends = true
  · rw [if_pos hd, if_pos hd, run_modify_bind]
    by_cases hmode : 0 < l.torn.client.conn.stratumMode
    · rw [if_pos hmode, if_pos (show 0 < l.mode from hmode)]
      rfl
    · rw [if_neg hmode, if_neg (show ¬ 0 < l.mode from hmode)]
      rfl
  · rw [if_neg hd, if_neg hd]
    rfl

/-- **`disconnect_finalize` with its connection.** -/
theorem disconnectFinalize_run (hconn : l.connSet = true) :
    disconnectFinalize now l = .ok () (l.finalized now) := by
  unfold disconnectFinalize close
  rw [run_modify_bind, run_get_bind]
  dsimp only
  have hclosed : (l.closed .null).connSet = true := hconn
  have htorn : l.torn.connSet = true := hconn
  split_ifs
  · rw [run_bind_of_ok (useConn_run hclosed)]
    exact (run_bind_of_ok (useConn_run htorn) _).trans lowerMode_run
  · exact (run_bind_of_ok (useConn_run htorn) _).trans lowerMode_run

/-- **`disconnect_finalize` without a connection.** -/
theorem disconnectFinalize_unset (now : ℤ) (hconn : l.connSet = false) :
    ∃ l', disconnectFinalize now l = .error (.nullConn true) l' := by
  unfold disconnectFinalize close
  rw [run_modify_bind, run_get_bind]
  dsimp only
  have hclosed : (l.closed .null).connSet = false := hconn
  have htorn : l.torn.connSet = false := hconn
  split_ifs
  · exact ⟨_, run_bind_of_error (useConn_unset hclosed) _⟩
  · exact ⟨_, run_bind_of_error (useConn_unset htorn) _⟩

/-- Closing a socket before it is destroyed changes nothing. -/
theorem torn_closed (l : Link) : (l.cancelled.closed .closed).torn = l.torn := by
  simp [torn, closed, cancelled, aborted]

theorem finalized_closed (now : ℤ) (l : Link) :
    (l.cancelled.closed .closed).finalized now = l.finalized now := by
  unfold finalized lowered exhausted
  rw [torn_closed]
  rfl

/-- **What a handler can do**: how one of the kind `k` gets from `l`, which it has been taken
off, to `l'`. -/
inductive Outcome (now : ℤ) : Kind → Link → Link → Prop
  | quiet {k : Kind} {l l' : Link} (hk : k = .other ∨ k = .tick) (h : Quiet l l') : Outcome now k l l'
  | skip {k : Kind} {l : Link} (hk : k = .disconnect ∧ l.disconnecting = true ∨
      k = .startConnect ∧ l.connecting = true) : Outcome now k l l
  | disconnect {l : Link} (hconn : l.connSet = true) (hsocket : l.socket ≠ .closed) :
      Outcome now .disconnect l (l.down.finalized now)
  | shutDown {l : Link} (hsocket : l.socket = .opened) (hsecure : l.uri.isSecure = true) :
      Outcome now .disconnect l (l.shuttingDown now)
  | finalize {l : Link} (hconn : l.connSet = true) : Outcome now .disconnectFinalize l (l.finalized now)
  | exhaust {l : Link} (hconn : l.connSet = true) (hidle : l.connecting = false) :
      Outcome now .startConnect l (l.finalized now)
  | dial {l : Link} (hconn : l.connSet = true) (hidle : l.connecting = false) :
      Outcome now .startConnect l (l.dialing now)
  | resolve {l : Link} (n : ℕ) :
      Outcome now .resolveHandler l { l with endpoints := n, queue := l.queue ++ [.startConnect] }
  | unresolved {l : Link} (hconn : l.connSet = true) :
      Outcome now .resolveHandler l ({ l with connecting := false }.finalized now)
  | refuse {l : Link} (n : ℕ) (hsocket : l.socket ≠ .null) :
      Outcome now .connectHandler l
        { l.refused with
          connecting := false
          endpoints := n
          queue := l.refused.queue ++ [.startConnect] }
  | tlsFail {l : Link} (hconn : l.connSet = true) (hsocket : l.socket = .opened) :
      Outcome now .connectHandler l
        { l.accepted with
          connecting := false
          client := { l.accepted.client with conn := { l.client.conn with unrecoverable := true } }
          queue := l.queue ++ [.disconnect] }
  | accept {l l' : Link} (hconn : l.connSet = true) (hsocket : l.socket = .opened)
      (h : Quiet { l.loggingIn now with connecting := false } l') : Outcome now .connectHandler l l'
  | timeOut {l m : Link} (hconn : l.connSet = true) (h : Quiet l m) (hpending : m.isPendingState = true)
      (hsocket : m.socket ≠ .null) : Outcome now .tick l (m.closed .closed)
  | shutdown {l : Link} :
      Outcome now .shutdown l
        { l with
          client := { l.client with pleas := Pleas.clear now }
          queue := l.queue ++ [.disconnectFinalize] }

/-- What a quiet handler does. -/
theorem quiet_of_run {α : Type} {x : LinkM α} [hx : ∀ l₀, Keeps (Quiet l₀) (Calm l₀) x] {a : α} {l' : Link}
    (hrun : x l = .ok a l') : Quiet l l' := by
  have hends := (hx l).ends l (Quiet.refl l)
  unfold Ends at hends
  rwa [hrun] at hends

/-- `disconnect_finalize` returns only with its connection. -/
theorem finalized_of_run {l' : Link} {u : Unit} (hrun : disconnectFinalize now l = .ok u l') :
    l.connSet = true ∧ l' = l.finalized now := by
  cases hconn : l.connSet with
  | false =>
    obtain ⟨m, herror⟩ := disconnectFinalize_unset now hconn
    exact nomatch hrun.symm.trans herror
  | true =>
    rw [disconnectFinalize_run hconn] at hrun
    cases hrun
    exact ⟨rfl, rfl⟩

theorem connSet_of_run {teardown : Bool} {l' : Link} {u : Unit}
    (hrun : useConn teardown l = .ok u l') : l.connSet = true ∧ l' = l := by
  cases hconn : l.connSet with
  | false => exact nomatch hrun.symm.trans (useConn_unset hconn)
  | true =>
    rw [useConn_run hconn] at hrun
    cases hrun
    exact ⟨rfl, rfl⟩

theorem disconnect_outcome {l' : Link} {u : Unit} (hrun : disconnect now l = .ok u l') :
    Outcome now .disconnect l l' := by
  unfold disconnect at hrun
  rw [run_get_bind] at hrun
  by_cases hdis : l.disconnecting = true
  · rw [if_pos hdis] at hrun
    cases hrun
    exact .skip (.inl ⟨rfl, hdis⟩)
  rw [if_neg hdis, run_modify_bind] at hrun
  cases hsocket : l.socket with
  | null =>
    rw [hsocket] at hrun
    obtain ⟨hconn, rfl⟩ := finalized_of_run hrun
    exact .disconnect hconn (by simp [hsocket])
  | closed =>
    rw [hsocket] at hrun
    exact nomatch hrun
  | opened =>
    rw [hsocket] at hrun
    obtain ⟨_, m, hcancel, hrun⟩ := bind_eq_ok.1 hrun
    cases hcancel
    obtain ⟨_, m, huse, hrun⟩ := bind_eq_ok.1 hrun
    obtain ⟨hconn, rfl⟩ := connSet_of_run huse
    rw [run_get_bind] at hrun
    by_cases hsecure : l.down.cancelled.uri.isSecure = true
    · rw [if_pos hsecure] at hrun
      cases hrun
      exact .shutDown hsocket hsecure
    · rw [if_neg hsecure] at hrun
      obtain ⟨_, m, hclose, hrun⟩ := bind_eq_ok.1 hrun
      cases hclose
      obtain ⟨-, rfl⟩ := finalized_of_run hrun
      rw [finalized_closed]
      exact .disconnect hconn (by simp [hsocket])

theorem dial_of_run {l' : Link} {u : Unit} (hrun : dial now l = .ok u l') :
    l.connSet = true ∧ l' = { l.dialing now with connecting := l.connecting } := by
  obtain ⟨_, m, hclear, hrun⟩ := bind_eq_ok.1 hrun
  cases hclear
  obtain ⟨_, m, henqueue, hrun⟩ := bind_eq_ok.1 hrun
  cases henqueue
  obtain ⟨_, m, hwrite, hrun⟩ := bind_eq_ok.1 hrun
  cases hwrite
  obtain ⟨_, m, huse, hrun⟩ := bind_eq_ok.1 hrun
  obtain ⟨hconn, rfl⟩ := connSet_of_run huse
  cases hrun
  exact ⟨hconn, rfl⟩

theorem startConnect_outcome {l' : Link} {u : Unit} (hrun : startConnect now l = .ok u l') :
    Outcome now .startConnect l l' := by
  unfold startConnect at hrun
  rw [run_get_bind] at hrun
  by_cases hidle : l.connecting = true
  · rw [if_pos hidle] at hrun
    cases hrun
    exact .skip (.inr ⟨rfl, hidle⟩)
  rw [if_neg hidle, run_modify_bind] at hrun
  have hidle : l.connecting = false := by simpa using hidle
  by_cases hempty : l.endpoints ≠ 0
  · rw [if_pos hempty] at hrun
    by_cases hnull : l.socket = .null
    · rw [if_pos hnull] at hrun
      obtain ⟨_, m, hinit, hrun⟩ := bind_eq_ok.1 hrun
      obtain ⟨_, m, huse, hinit⟩ := bind_eq_ok.1 hinit
      obtain ⟨hconn, rfl⟩ := connSet_of_run huse
      cases hinit
      obtain ⟨-, rfl⟩ := dial_of_run hrun
      exact .dial hconn hidle
    · rw [if_neg hnull] at hrun
      obtain ⟨hconn, rfl⟩ := dial_of_run hrun
      exact .dial hconn hidle
  · rw [if_neg hempty, run_modify_bind] at hrun
    obtain ⟨_, m, huse, hrun⟩ := bind_eq_ok.1 hrun
    obtain ⟨hconn, rfl⟩ := connSet_of_run huse
    obtain ⟨-, rfl⟩ := finalized_of_run hrun
    have hsame : ({ l with connecting := false } : Link) = l := by rw [← hidle]
    exact hsame.symm ▸ .exhaust hconn hidle

theorem resolveHandler_outcome {endpoints : Option ℕ} {l' : Link} {u : Unit}
    (hrun : resolveHandler now endpoints l = .ok u l') : Outcome now .resolveHandler l l' := by
  cases endpoints with
  | some n =>
    cases hrun
    exact .resolve _
  | none =>
    obtain ⟨_, m, huse, hrest⟩ := bind_eq_ok.1 hrun
    obtain ⟨hconn, rfl⟩ := connSet_of_run huse
    rw [run_modify_bind] at hrest
    obtain ⟨-, rfl⟩ := finalized_of_run hrest
    exact .unresolved hconn

theorem popEndpoint_of_run {l' : Link} {u : Unit} (hrun : popEndpoint l = .ok u l') :
    ∃ n, l' = { l with endpoints := n } := by
  unfold popEndpoint at hrun
  rw [run_get_bind] at hrun
  cases hn : l.endpoints with
  | zero =>
    rw [hn] at hrun
    exact nomatch hrun
  | succ n =>
    rw [hn] at hrun
    cases hrun
    exact ⟨n, rfl⟩

theorem connectFailed_outcome {l' : Link} {u : Unit}
    (hrun : connectFailed { l with connecting := false } = .ok u l') :
    Outcome now .connectHandler l l' := by
  unfold connectFailed at hrun
  rw [run_get_bind] at hrun
  by_cases hnull : l.socket = .null
  · rw [if_pos hnull] at hrun
    exact nomatch hrun
  rw [if_neg hnull] at hrun
  dsimp only at hrun
  rw [run_get_bind] at hrun
  have hrefused : (popEndpoint >>= fun _ => post .startConnect)
      { l.refused with connecting := false } = .ok u l' := by
    unfold refused
    split_ifs at hrun ⊢
    · exact hrun
    · exact hrun
  obtain ⟨_, m, hpop, hpost⟩ := bind_eq_ok.1 hrefused
  obtain ⟨n, rfl⟩ := popEndpoint_of_run hpop
  cases hpost
  exact .refuse n hnull

theorem login_of_run {rt : Runtime} {l' : Link} {u : Unit}
    (hrun : login rt now { l.accepted with connecting := false } = .ok u l') :
    Quiet { l.loggingIn now with connecting := false } l' := by
  obtain ⟨_, m, hclear, hrun⟩ := bind_eq_ok.1 hrun
  cases hclear
  obtain ⟨_, m, hmode, hrun⟩ := bind_eq_ok.1 hrun
  cases hmode
  obtain ⟨_, m, hrecv, hrun⟩ := bind_eq_ok.1 hrun
  obtain ⟨_, m, huse, hrecv⟩ := bind_eq_ok.1 hrecv
  obtain ⟨hconn, rfl⟩ := connSet_of_run huse
  cases hrecv
  obtain ⟨_, m, hplea, hrun⟩ := bind_eq_ok.1 hrun
  cases hplea
  rw [run_get_bind, run_modify_bind] at hrun
  exact quiet_of_run hrun

theorem connectSucceeded_outcome {rt : Runtime} {hec : Bool} {l' : Link} {u : Unit}
    (hsocket : l.socket = .opened)
    (hrun : connectSucceeded rt now hec { l with connecting := false } = .ok u l') :
    Outcome now .connectHandler l l' := by
  unfold connectSucceeded at hrun
  obtain ⟨_, m, huse, hrun⟩ := bind_eq_ok.1 hrun
  obtain ⟨hconn, rfl⟩ := connSet_of_run huse
  rw [run_modify_bind, run_get_bind] at hrun
  split_ifs at hrun with htls
  · cases hrun
    exact .tlsFail hconn hsocket
  · exact .accept hconn hsocket (login_of_run hrun)

theorem connectHandler_outcome {rt : Runtime} {ec hec : Bool} {l' : Link} {u : Unit}
    (hrun : connectHandler rt now ec hec l = .ok u l') : Outcome now .connectHandler l l' := by
  unfold connectHandler at hrun
  rw [run_modify_bind] at hrun
  by_cases hec : ec = true
  · rw [if_pos hec] at hrun
    exact connectFailed_outcome hrun
  rw [if_neg hec, run_get_bind] at hrun
  by_cases hnull : l.socket = .null
  · rw [if_pos hnull] at hrun
    exact nomatch hrun
  rw [if_neg hnull] at hrun
  dsimp only at hrun
  rw [run_get_bind] at hrun
  by_cases hopened : l.socket = .opened
  · rw [if_pos hopened] at hrun
    exact connectSucceeded_outcome hopened hrun
  · rw [if_neg hopened] at hrun
    exact connectFailed_outcome hrun

theorem checkPending_of_run {l' : Link} {b : Bool} (hrun : checkPending now l = .ok b l') :
    b = false ∧ l' = l ∨
      b = true ∧ l.isPendingState = true ∧ l.socket ≠ .null ∧ l' = l.closed .closed := by
  unfold checkPending at hrun
  rw [run_get_bind] at hrun
  split_ifs at hrun with hpending hconnecting hnull hsecure
  · exact nomatch hrun
  · cases hrun
    exact .inr ⟨rfl, hpending.1, hnull, rfl⟩
  · cases hrun
    exact .inr ⟨rfl, hpending.1, by simp [hsecure.2.2], rfl⟩
  · cases hrun
    exact .inl ⟨rfl, rfl⟩
  · cases hrun
    exact .inl ⟨rfl, rfl⟩

theorem checkPleas_of_run {l' : Link} {b : Bool} (hrun : checkPleas now l = .ok b l') :
    Quiet l l' ∨ b = true ∧ l.isPendingState = true ∧ l.socket ≠ .null ∧ l' = l.closed .closed := by
  unfold checkPleas at hrun
  rw [run_get_bind] at hrun
  split_ifs at hrun
  · cases hrun
    exact .inl (Quiet.refl l)
  · obtain ⟨c, m, hpending, hrest⟩ := bind_eq_ok.1 hrun
    rcases checkPending_of_run hpending with ⟨rfl, rfl⟩ | ⟨rfl, hstate, hnull, rfl⟩
    · exact .inl (quiet_of_run (x := checkConnected now) hrest)
    · cases hrest
      exact .inr ⟨rfl, hstate, hnull, rfl⟩

theorem workloopTimerElapsed_outcome {aborted : Bool} {l' : Link} {u : Unit}
    (hrun : workloopTimerElapsed now aborted l = .ok u l') :
    Outcome now (Handler.workloopTimerElapsed aborted).kind l l' := by
  unfold workloopTimerElapsed at hrun
  rw [run_get_bind] at hrun
  by_cases hskip : aborted = true ∨ ¬ l.connSet = true
  · rw [if_pos hskip] at hrun
    cases hrun
    cases aborted <;> exact .quiet (by simp [Handler.kind]) (Quiet.refl l)
  rw [if_neg hskip] at hrun
  rw [not_or, not_not] at hskip
  obtain ⟨haborted, hconn⟩ := hskip
  obtain rfl : aborted = false := by simpa using haborted
  obtain ⟨_, m, halive, hrun⟩ := bind_eq_ok.1 hrun
  have hm : Quiet l m := quiet_of_run halive
  obtain ⟨b, m', hcheck, hrun⟩ := bind_eq_ok.1 hrun
  rcases checkPleas_of_run hcheck with hquiet | ⟨rfl, hstate, hnull, rfl⟩
  · refine .quiet (.inr rfl) (hm.trans (hquiet.trans ?_))
    split_ifs at hrun
    · cases hrun
      exact Quiet.refl _
    · exact quiet_of_run hrun
  · cases hrun
    exact .timeOut hconn hm hstate hnull

/-- **Every handler that returns has one of the outcomes.** -/
theorem handle_outcome {rt : Runtime} {h : Handler} {l' : Link} {u : Unit}
    (hrun : handle rt now h l = .ok u l') : Outcome now h.kind l l' := by
  cases h with
  | disconnect => exact disconnect_outcome hrun
  | disconnectFinalize =>
    obtain ⟨hconn, rfl⟩ := finalized_of_run hrun
    exact .finalize hconn
  | startConnect => exact startConnect_outcome hrun
  | processResponse jRes => exact .quiet (.inl rfl) (quiet_of_run (x := processFake rt now jRes) hrun)
  | resolveHandler endpoints => exact resolveHandler_outcome hrun
  | connectHandler ec hec => exact connectHandler_outcome hrun
  | workloopTimerElapsed aborted => exact workloopTimerElapsed_outcome hrun
  | onRecvSocketDataCompleted rxMessage =>
    exact .quiet (.inl rfl) (quiet_of_run (x := onRecvSocketDataCompleted rt now rxMessage) hrun)
  | onSendSocketDataCompleted ec ssl =>
    exact .quiet (.inl rfl) (quiet_of_run (x := onSendSocketDataCompleted now ec ssl) hrun)
  | onSSLShutdownCompleted =>
    cases hrun
    exact .shutdown

/-- The steps that leave the connection alone. -/
def Event.isQuiet : Event → Bool
  | .submitSolution _ _ => true
  | .received _ => true
  | .sent _ _ => true
  | _ => false

/-- **What a step can do.** -/
inductive Move : Event → Link → Link → Prop
  | stay {e : Event} {l : Link} : Move e l l
  | run {now : ℤ} {h : Handler} {queue : List Handler} {l l' : Link} (hqueue : l.queue = h :: queue)
      (h : Outcome now h.kind { l with queue := queue } l') : Move (.run now) l l'
  | connectName {l : Link} (hidle : l.connecting = false) (hconn : l.connSet = true) :
      Move .connect l
        { l.starting with
          queue := l.starting.queue ++ if l.resolveOp then [.resolveHandler none] else []
          resolveOp := true }
  | connectAddress {l : Link} (hidle : l.connecting = false) (hconn : l.connSet = true) :
      Move .connect l
        { l.starting with endpoints := 1, queue := l.starting.queue ++ [.startConnect] }
  | disconnect {now : ℤ} {l l' : Link} (h : Outcome now .disconnect l l') : Move (.disconnect now) l l'
  | caught {now : ℤ} {l : Link} (hsocket : l.socket = .closed) : Move (.disconnect now) l l.down
  | quiet {e : Event} {l l' : Link} (he : e.isQuiet = true) (h : Quiet l l') : Move e l l'
  | resolved {endpoints : Option ℕ} {l : Link} (hop : l.resolveOp = true) :
      Move (.resolved endpoints) l
        { l with resolveOp := false, queue := l.queue ++ [.resolveHandler endpoints] }
  | connected {ec hec : Bool} {l : Link} (hop : l.connectOp = true) :
      Move (.connected ec hec) l { l with connectOp := false, queue := l.queue ++ [.connectHandler ec hec] }
  | shutdownCompleted {l : Link} (hop : l.shutdownOp = true) :
      Move .shutdownCompleted l
        { l with shutdownOp := false, queue := l.queue ++ [.onSSLShutdownCompleted] }
  | expired {l : Link} (htimer : l.timer = .armed) :
      Move .expired l { l with timer := .idle, queue := l.queue ++ [.workloopTimerElapsed false] }

theorem initSocket_of_run {l' : Link} {u : Unit} (hrun : initSocket l = .ok u l') :
    l.connSet = true ∧ l' = { l with socket := .closed } := by
  obtain ⟨_, m, huse, hrest⟩ := bind_eq_ok.1 hrun
  obtain ⟨hconn, hm⟩ := connSet_of_run huse
  rw [hm] at hrest
  cases hrest
  exact ⟨hconn, rfl⟩

theorem prepare_of_run {l' : Link} {u : Unit} (hrun : prepare l = .ok u l') : l' = l.starting := by
  obtain ⟨_, m, harm, hrest⟩ := bind_eq_ok.1 hrun
  cases harm
  obtain ⟨_, m, hauth, hrest⟩ := bind_eq_ok.1 hrest
  cases hauth
  rw [run_get_bind] at hrest
  unfold starting
  by_cases hnull : l.socket = .null
  · rw [if_pos hnull] at hrest ⊢
    obtain ⟨_, m, hinit, hrest⟩ := bind_eq_ok.1 hrest
    obtain ⟨-, rfl⟩ := initSocket_of_run hinit
    cases hrest
    rfl
  · rw [if_neg hnull] at hrest ⊢
    cases hrest
    rfl

theorem connect_move {l' : Link} {u : Unit} (hrun : connect l = .ok u l') : Move .connect l l' := by
  unfold connect at hrun
  rw [run_get_bind] at hrun
  by_cases hidle : l.connecting = true
  · rw [if_pos hidle] at hrun
    cases hrun
    exact .stay
  rw [if_neg hidle] at hrun
  have hidle : l.connecting = false := by simpa using hidle
  obtain ⟨_, m, hprepare, hrest⟩ := bind_eq_ok.1 hrun
  obtain rfl := prepare_of_run hprepare
  obtain ⟨_, m, huse, hrest⟩ := bind_eq_ok.1 hrest
  obtain ⟨hconn, rfl⟩ := connSet_of_run huse
  rw [run_get_bind] at hrest
  by_cases hname : l.starting.uri.isName = true
  · rw [if_pos hname] at hrest
    have hmove : Move .connect l _ := .connectName hidle hconn
    by_cases hop : l.starting.resolveOp = true
    · rw [if_pos hop] at hrest
      rw [if_pos (show l.resolveOp = true from hop)] at hmove
      cases hrest
      exact hmove
    · rw [if_neg hop] at hrest
      rw [if_neg (show ¬ l.resolveOp = true from hop), List.append_nil] at hmove
      cases hrest
      exact hmove
  · rw [if_neg hname] at hrest
    cases hrest
    exact .connectAddress hidle hconn

/-- `disconnect_finalize` throws nothing that is caught. -/
theorem disconnectFinalize_error {e : Crash} {m : Link} (herror : disconnectFinalize now l = .error e m) :
    l.connSet = false ∧ e = .nullConn true := by
  cases hconn : l.connSet with
  | true => exact nomatch (disconnectFinalize_run hconn).symm.trans herror
  | false =>
    obtain ⟨m', hunset⟩ := disconnectFinalize_unset now hconn
    rw [hunset] at herror
    cases herror
    exact ⟨rfl, rfl⟩

/-- **How `disconnect` throws**: on a socket that is not open, or without its connection. -/
theorem disconnect_error {e : Crash} {m : Link} (herror : disconnect now l = .error e m) :
    l.socket = .closed ∧ e = .uncaught ∧ m = l.down ∨ l.connSet = false ∧ e = .nullConn true := by
  unfold disconnect at herror
  rw [run_get_bind] at herror
  by_cases hdis : l.disconnecting = true
  · rw [if_pos hdis] at herror
    exact nomatch herror
  rw [if_neg hdis, run_modify_bind] at herror
  cases hsocket : l.socket with
  | null =>
    rw [hsocket] at herror
    exact .inr (disconnectFinalize_error (l := l.down) herror)
  | closed =>
    rw [hsocket] at herror
    cases herror
    exact .inl ⟨rfl, rfl, rfl⟩
  | opened =>
    rw [hsocket] at herror
    change (useConn true >>= _) l.down.cancelled = _ at herror
    cases hconn : l.connSet with
    | false =>
      rw [run_bind_of_error (useConn_unset (show l.down.cancelled.connSet = false from hconn))] at herror
      cases herror
      exact .inr ⟨rfl, rfl⟩
    | true =>
      rw [run_bind_of_ok (useConn_run (show l.down.cancelled.connSet = true from hconn)),
        run_get_bind] at herror
      split_ifs at herror
      · exact nomatch herror
      · have hfinal := (disconnectFinalize_error herror).1
        exact nomatch hconn.symm.trans hfinal

theorem callDisconnect_move {l' : Link} {u : Unit} (hrun : callDisconnect now l = .ok u l') :
    Move (.disconnect now) l l' := by
  unfold callDisconnect at hrun
  cases hdisconnect : disconnect now l with
  | ok u m =>
    rw [run_tryCatch_of_ok hdisconnect] at hrun
    cases hrun
    exact .disconnect (disconnect_outcome hdisconnect)
  | error e m =>
    rw [run_tryCatch_of_error hdisconnect] at hrun
    rcases disconnect_error hdisconnect with ⟨hsocket, rfl, rfl⟩ | ⟨-, rfl⟩
    · cases hrun
      exact .caught hsocket
    · exact nomatch hrun

/-- An operation that completes with a handler. -/
theorem complete_of_run {op : Link → Bool} {done : Link → Link} {h : Handler} {l' : Link} {u : Unit}
    (hrun : complete op done h l = .ok u l') :
    l' = l ∨ op l = true ∧ l' = { done l with queue := l.queue ++ [h] } := by
  cases hrun
  dsimp only
  split_ifs with hop
  · exact .inr ⟨hop, rfl⟩
  · exact .inl rfl

/-- The next handler is run, if there is one. -/
theorem handle_of_run {rt : Runtime} {l' : Link} {u : Unit} (hrun : act rt (.run now) l = .ok u l') :
    l' = l ∨ ∃ h queue, l.queue = h :: queue ∧ handle rt now h { l with queue := queue } = .ok u l' := by
  unfold act at hrun
  dsimp only at hrun
  rw [run_get_bind] at hrun
  cases hqueue : l.queue with
  | nil =>
    rw [hqueue] at hrun
    cases hrun
    exact .inl rfl
  | cons h queue =>
    rw [hqueue] at hrun
    exact .inr ⟨h, queue, rfl, hrun⟩

/-- **Every step that returns is one of the moves.** -/
theorem act_move {rt : Runtime} {e : Event} {l' : Link} {u : Unit} (hrun : act rt e l = .ok u l') :
    Move e l l' := by
  cases e with
  | run now =>
    rcases handle_of_run hrun with rfl | ⟨h, queue, hqueue, hhandle⟩
    · exact .stay
    · exact .run hqueue (handle_outcome hhandle)
  | connect => exact connect_move hrun
  | disconnect now => exact callDisconnect_move hrun
  | submitSolution now solution =>
    exact .quiet rfl (quiet_of_run (x := call now (submitSolution now solution)) hrun)
  | resolved endpoints =>
    rcases complete_of_run hrun with rfl | ⟨hop, rfl⟩
    · exact .stay
    · exact .resolved hop
  | connected ec hec =>
    rcases complete_of_run hrun with rfl | ⟨hop, rfl⟩
    · exact .stay
    · exact .connected hop
  | received rxMessage =>
    rcases complete_of_run hrun with rfl | ⟨hop, rfl⟩
    · exact .stay
    · exact .quiet rfl { Quiet.refl l with queue := ⟨[.other], by simp [kinds, Handler.kind], by simp [Kind.isQuiet]⟩ }
  | sent ec ssl =>
    rcases complete_of_run hrun with rfl | ⟨hop, rfl⟩
    · exact .stay
    · exact .quiet rfl { Quiet.refl l with queue := ⟨[.other], by simp [kinds, Handler.kind], by simp [Kind.isQuiet]⟩ }
  | shutdownCompleted =>
    rcases complete_of_run hrun with rfl | ⟨hop, rfl⟩
    · exact .stay
    · exact .shutdownCompleted hop
  | expired =>
    rcases complete_of_run hrun with rfl | ⟨htimer, rfl⟩
    · exact .stay
    · exact .expired (of_decide_eq_true htimer)

end Link

/-- A step of a run that goes on. -/
theorem LinkRun.act_of_next {rt : Runtime} {s : LinkRun} {e : Link.Event}
    (hcrash : (s.next rt e).crash = none) :
    s.crash = none ∧ ∃ u, Link.act rt e s.link = .ok u (s.next rt e).link := by
  unfold LinkRun.next at hcrash ⊢
  cases hs : s.crash with
  | some c =>
    rw [hs] at hcrash
    exact nomatch hs.symm.trans hcrash
  | none =>
    rw [hs] at hcrash
    cases hrun : Link.act rt e s.link with
    | ok u l => exact ⟨rfl, u, rfl⟩
    | error c l =>
      rw [hrun] at hcrash
      exact nomatch hcrash

/-- As long as the client runs. -/
def LinkRun.Running (P : Link → Prop) (s : LinkRun) : Prop := s.crash = none → P s.link

/-- One step of a client that runs. -/
theorem LinkRun.Running.next {rt : Runtime} {P Q : Link → Prop} {s : LinkRun} {e : Link.Event}
    (hs : s.Running P) (hstep : ∀ l', P s.link → Link.Move e s.link l' → Q l') : (s.next rt e).Running Q := by
  intro hcrash
  obtain ⟨hnone, u, hrun⟩ := act_of_next hcrash
  exact hstep _ (hs hnone) (Link.act_move hrun)

/-- **The invariant rule for runs of the client**, as long as they go on: an invariant of the
steps with the condition `C`, in a run in which all steps have it. -/
theorem LinkRun.inv_of_acts {rt : Runtime} {Inv : Link → Prop} {C : Link → Link.Event → Prop}
    {l : Link} (h0 : Inv l) (hstep : ∀ l e u l', Inv l → C l e → Link.act rt e l = .ok u l' → Inv l')
    {es : List Link.Event} (hC : Along (LinkRun.next rt) (fun s e => C s.link e) ⟨l, none⟩ es) :
    (run (LinkRun.next rt) ⟨l, none⟩ es).Running Inv := by
  have hinit : LinkRun.Running Inv ⟨l, none⟩ := fun _ => h0
  refine Along.run_inv hinit (fun s e hinv hc hnext => ?_) hC
  obtain ⟨hs, u, hrun⟩ := act_of_next hnext
  exact hstep s.link e u _ (hinv hs) hc hrun

/-- The rule for an invariant of all moves. -/
theorem LinkRun.inv_of_moves {rt : Runtime} {Inv : Link → Prop} {l : Link} (h0 : Inv l)
    (hstep : ∀ l e l', Inv l → Link.Move e l l' → Inv l') (es : List Link.Event) :
    (run (LinkRun.next rt) ⟨l, none⟩ es).Running Inv :=
  inv_of_acts (C := fun _ _ => True) h0 (fun l e _ l' hl _ hrun => hstep l e l' hl (Link.act_move hrun))
    (along_of_forall (fun _ _ => trivial) es)

end Stratum
end EtcMiner
