/-
# The watchdog of the stratum client

`workloop_timer_elapsed` in `libpool/stratum/EthStratumClient.cpp` gives up a pool that does
not answer.  It arms its timer again at its end, but three branches return before that: the
two that close a socket while a connection is made or shut down, and the one that answers a
login request in place of the pool.  The client then waits without a watchdog: a tick
during a connection attempt is enough (`pendingRun_not_watched`).

In a run in which no tick returns early, a client that waits for a response is watched
(`waits_watched`): from `connect` on a tick is due until the connection is given back, and outside
of that time the client asks for nothing (`Asleep`).
-/

import EtcMiner.Stratum.Steps

namespace EtcMiner
namespace Stratum

open Common Eth Lib Pool

-- the handlers are long sequences
set_option synthInstance.maxSize 100000

namespace Link

variable {l l' : Link} {now : ℤ} {rt : Runtime}

/-- A tick is due at a finite time, or about to run. -/
def Awake (l : Link) : Prop := l.timer = .armed ∨ Kind.tick ∈ l.kinds

/-- A client that waits for a response is watched. -/
def Watched (l : Link) : Prop := 0 < l.client.pleas.count → l.Awake

/-- A tick at the time `now` closes the socket of a connection that is made or shut down. -/
def closesPending (now : ℤ) (l : Link) : Bool :=
  l.isPendingState && delayMs now l.client.pleas.older ≤ l.responsetimeout * 1000 &&
    (l.connecting || l.disconnecting && l.uri.isSecure && l.socket = .opened)

/-- A tick at the time `now` answers the login request in place of the pool. -/
def answersLogin (now : ℤ) (l : Link) : Bool :=
  l.isConnected && l.responsetimeout * 1000 ≤ delayMs now l.client.pleas.older &&
    !l.client.conn.stratumModeConfirmed && !l.client.conn.unrecoverable

/-- A tick at the time `now` returns before it arms the timer again. -/
def returnsEarly (now : ℤ) (l : Link) : Bool :=
  l.client.pleas.count ≠ 0 && (l.closesPending now || l.answersLogin now)

/-- The step is a tick that returns early. -/
def ticksEarly (l : Link) : Event → Bool
  | .run now =>
    match l.queue with
    | .workloopTimerElapsed false :: _ => l.connSet && l.returnsEarly now
    | _ => false
  | _ => false

/-- Nothing is asked for: the client has no socket and no session. -/
structure Asleep (l : Link) : Prop where
  socket : l.socket = .null
  session : l.client.session = none
  pleas : l.client.pleas.count = 0

/-- The connection has been given back. -/
structure Done (l : Link) : Prop extends l.Asleep where
  connSet : l.connSet = false

/-- `connect` has not been called. -/
structure Fresh (l : Link) : Prop extends l.Asleep where
  responds : l.responds = false
  resolveOp : l.resolveOp = false
  connectOp : l.connectOp = false
  readOp : l.readOp = false
  writeOp : l.writeOp = false
  shutdownOp : l.shutdownOp = false
  timer : l.timer ≠ .armed
  queue : ∀ h ∈ l.queue, h = .workloopTimerElapsed true

section Done

variable {l₀ : Link}

/-- The connection has been given back, and no handler of the pool manager was called since
`l₀`. -/
structure Silent (l₀ l : Link) : Prop extends l.Done where
  raised : l.raised = l₀.raised

/-- However it fails. -/
def Whatever (_ : Crash) (_ : Link) : Prop := True

instance {α : Type} (e : Crash) : Keeps (Silent l₀) Whatever (throw e : LinkM α) :=
  keeps_throw fun _ _ => trivial

theorem keeps_silent {f : Link → Link} (hsocket : ∀ l, (f l).socket = l.socket)
    (hclient : ∀ l, (f l).client.session = l.client.session ∧ (f l).client.pleas = l.client.pleas)
    (hconn : ∀ l, (f l).connSet = l.connSet ∧ (f l).raised = l.raised) :
    Keeps (Silent l₀) Whatever (modify f : LinkM PUnit) := by
  refine keeps_modify fun l hl => ?_
  obtain ⟨⟨⟨hs, hsession, hpleas⟩, hset⟩, hraised⟩ := hl
  obtain ⟨hf, hf'⟩ := hclient l
  obtain ⟨hg, hg'⟩ := hconn l
  exact ⟨⟨⟨(hsocket l).trans hs, hf.trans hsession, hf' ▸ hpleas⟩, hg.trans hset⟩, hg'.trans hraised⟩

instance (teardown : Bool) : Keeps (Silent l₀) Whatever (useConn teardown) := by
  unfold useConn
  infer_instance

instance (h : Handler) : Keeps (Silent l₀) Whatever (post h) :=
  keeps_silent (fun _ => rfl) (fun _ => ⟨rfl, rfl⟩) fun _ => ⟨rfl, rfl⟩

instance : Keeps (Silent l₀) Whatever dropQueue :=
  keeps_silent (fun _ => rfl) (fun _ => ⟨rfl, rfl⟩) fun _ => ⟨rfl, rfl⟩

instance : Keeps (Silent l₀) Whatever recvSocketData :=
  Keeps.bind inferInstance fun _ => keeps_silent (fun _ => rfl) (fun _ => ⟨rfl, rfl⟩) fun _ => ⟨rfl, rfl⟩

instance : Keeps (Silent l₀) Whatever Link.markUnrecoverable :=
  keeps_silent (fun _ => rfl) (fun _ => ⟨rfl, rfl⟩) fun _ => ⟨rfl, rfl⟩

instance : Keeps (Silent l₀) Whatever sendSocketData := by
  have hpending : Keeps (Silent l₀) Whatever (modify fun l : Link => { l with txPending := false } : LinkM PUnit) :=
    keeps_silent (fun _ => rfl) (fun _ => ⟨rfl, rfl⟩) fun _ => ⟨rfl, rfl⟩
  have hwritten : Keeps (Silent l₀) Whatever (modify fun l : Link => { l with
      txQueue := [], txLogins := [], logins := l.logins ++ l.txLogins, writeOp := true } : LinkM PUnit) :=
    keeps_silent (fun _ => rfl) (fun _ => ⟨rfl, rfl⟩) fun _ => ⟨rfl, rfl⟩
  unfold sendSocketData
  infer_instance

instance (lines : List (List Char)) : Keeps (Silent l₀) Whatever (processLinesNull rt lines) := by
  induction lines with
  | nil => exact inferInstanceAs (Keeps _ _ (pure ()))
  | cons line lines ih =>
    refine Keeps.bind inferInstance fun l => ?_
    split <;> infer_instance

instance (rxMessage : List Char) : Keeps (Silent l₀) Whatever (receiveNull rt rxMessage) :=
  Keeps.bind inferInstance fun _ =>
    Keeps.bind (keeps_silent (fun _ => rfl) (fun _ => ⟨rfl, rfl⟩) fun _ => ⟨rfl, rfl⟩) fun _ => inferInstance

instance (rxMessage : Option (List Char)) :
    Keeps (Silent l₀) Whatever (onRecvSocketDataCompleted rt now rxMessage) := by
  cases rxMessage with
  | none =>
    unfold onRecvSocketDataCompleted
    dsimp only
    infer_instance
  | some rxMessage =>
    refine ⟨fun l hl => ?_⟩
    unfold onRecvSocketDataCompleted
    dsimp only
    rw [ends_bind, ends_get, if_neg (by simp [hl.connSet])]
    exact Keeps.ends l hl

instance (ec ssl : Bool) : Keeps (Silent l₀) Whatever (onSendSocketDataCompleted now ec ssl) := by
  have hpending : Keeps (Silent l₀) Whatever (modify fun l : Link => { l with txPending := false } : LinkM PUnit) :=
    keeps_silent (fun _ => rfl) (fun _ => ⟨rfl, rfl⟩) fun _ => ⟨rfl, rfl⟩
  have hstamp : Keeps (Silent l₀) Whatever (modify fun l : Link => { l with lastTxStamp := now } : LinkM PUnit) :=
    keeps_silent (fun _ => rfl) (fun _ => ⟨rfl, rfl⟩) fun _ => ⟨rfl, rfl⟩
  unfold onSendSocketDataCompleted
  dsimp only
  infer_instance

instance (jRes : Json) : Keeps (Silent l₀) Whatever (processFake rt now jRes) := by
  refine ⟨fun l hl => ?_⟩
  unfold processFake
  rw [ends_bind, ends_get, if_neg (by simp [hl.connSet]), ends_bind, ends_get]
  split <;> exact Keeps.ends l hl

theorem Done.of_keeps {x : LinkM Unit} [hx : Keeps (Silent l) Whatever x] {u : Unit} (hl : l.Done)
    (hrun : x l = .ok u l') : Silent l l' := by
  have hends := hx.ends l ⟨hl, rfl⟩
  unfold Ends at hends
  rwa [hrun] at hends

/-- All that moves the connection needs it, or a socket. -/
theorem Done.outcome {k : Kind} (hl : l.Done) (hk : k ≠ .other ∧ k ≠ .tick) (h : Outcome now k l l') :
    Silent l l' := by
  have hunset : l.connSet ≠ true := by simp [hl.connSet]
  have hsocket : l.socket = .null := hl.socket
  cases h with
  | quiet hquiet _ => exact absurd hquiet (by simp [hk])
  | skip _ => exact ⟨hl, rfl⟩
  | disconnect hconn _ => exact absurd hconn hunset
  | shutDown hopened _ => exact nomatch hsocket.symm.trans hopened
  | finalize hconn => exact absurd hconn hunset
  | exhaust hconn _ => exact absurd hconn hunset
  | dial hconn _ => exact absurd hconn hunset
  | resolve n => exact ⟨⟨⟨hl.socket, hl.session, hl.pleas⟩, hl.connSet⟩, rfl⟩
  | unresolved hconn => exact absurd hconn hunset
  | refuse n hnull => exact absurd hsocket hnull
  | tlsFail hconn _ => exact absurd hconn hunset
  | accept hconn _ _ => exact absurd hconn hunset
  | timeOut hconn _ _ _ => exact absurd hconn hunset
  | shutdown => exact ⟨⟨⟨hl.socket, hl.session, rfl⟩, hl.connSet⟩, rfl⟩

/-- **A handler that runs after the connection was given back.** -/
theorem Done.handle {h : Handler} {u : Unit} (hl : l.Done) (hrun : handle rt now h l = .ok u l') :
    Silent l l' := by
  cases h with
  | processResponse jRes => exact hl.of_keeps (x := processFake rt now jRes) hrun
  | onRecvSocketDataCompleted rxMessage =>
    exact hl.of_keeps (x := onRecvSocketDataCompleted rt now rxMessage) hrun
  | onSendSocketDataCompleted ec ssl => exact hl.of_keeps (x := onSendSocketDataCompleted now ec ssl) hrun
  | workloopTimerElapsed aborted =>
    change workloopTimerElapsed now aborted l = _ at hrun
    unfold workloopTimerElapsed at hrun
    rw [run_get_bind, if_pos (.inr (by simp [hl.connSet]))] at hrun
    cases hrun
    exact ⟨hl, rfl⟩
  | disconnect => exact hl.outcome (k := .disconnect) (by decide) (handle_outcome hrun)
  | disconnectFinalize => exact hl.outcome (k := .disconnectFinalize) (by decide) (handle_outcome hrun)
  | startConnect => exact hl.outcome (k := .startConnect) (by decide) (handle_outcome hrun)
  | resolveHandler endpoints => exact hl.outcome (k := .resolveHandler) (by decide) (handle_outcome hrun)
  | connectHandler ec hec => exact hl.outcome (k := .connectHandler) (by decide) (handle_outcome hrun)
  | onSSLShutdownCompleted => exact hl.outcome (k := .shutdown) (by decide) (handle_outcome hrun)

/-- Without a session nothing is submitted. -/
theorem submitSolution_of_none {solution : Solution} {u : Unit} (hs : l.client.session = none)
    (hrun : call now (submitSolution now solution) l = .ok u l') :
    l' = { l with client := { l.client with effects := [] } } := by
  have hsubmit : submitSolution now solution { l.client with effects := [] } =
      .ok () { l.client with effects := [] } := by
    unfold submitSolution
    rw [run_get_bind, if_pos (by simp [isAuthorized, hs])]
    rfl
  unfold call onClient at hrun
  obtain ⟨_, m, hclient, hrest⟩ := bind_eq_ok.1 hrun
  rw [hsubmit] at hclient
  cases hclient
  cases hrest
  rfl

/-- The calls of the pool manager and the completions after the connection was given back. -/
theorem Done.move {e : Event} (hl : l.Done) (he : e.isQuiet = false) (hrun : ∀ now, e ≠ .run now)
    (h : Move e l l') : Silent l l' := by
  obtain ⟨⟨hsocket, hsession, hpleas⟩, hconn⟩ := id hl
  have hunset : l.connSet ≠ true := by simp [hconn]
  cases h with
  | stay => exact ⟨hl, rfl⟩
  | run _ _ => exact absurd rfl (hrun _)
  | connectName _ hset => exact absurd hset hunset
  | connectAddress _ hset => exact absurd hset hunset
  | disconnect hout => exact hl.outcome (by decide) hout
  | caught hclosed => exact nomatch hsocket.symm.trans hclosed
  | quiet hquiet _ => exact nomatch he.symm.trans hquiet
  | _ => exact ⟨⟨⟨hsocket, hsession, hpleas⟩, hconn⟩, rfl⟩

/-- **A step after the connection was given back.** -/
theorem Done.act {e : Event} {u : Unit} (hl : l.Done) (hrun : act rt e l = .ok u l') : Silent l l' := by
  obtain ⟨⟨hsocket, hsession, hpleas⟩, hconn⟩ := id hl
  cases e with
  | run now =>
    rcases handle_of_run hrun with rfl | ⟨h, queue, -, hhandle⟩
    · exact ⟨hl, rfl⟩
    · have hsilent := Done.handle (l := { l with queue := queue }) ⟨⟨hsocket, hsession, hpleas⟩, hconn⟩ hhandle
      exact { hsilent with }
  | submitSolution now solution =>
    obtain rfl := submitSolution_of_none hsession hrun
    exact ⟨⟨⟨hsocket, hsession, hpleas⟩, hconn⟩, rfl⟩
  | received rxMessage =>
    rcases complete_of_run hrun with rfl | ⟨-, rfl⟩
    · exact ⟨hl, rfl⟩
    · exact ⟨⟨⟨hsocket, hsession, hpleas⟩, hconn⟩, rfl⟩
  | sent ec ssl =>
    rcases complete_of_run hrun with rfl | ⟨-, rfl⟩
    · exact ⟨hl, rfl⟩
    · exact ⟨⟨⟨hsocket, hsession, hpleas⟩, hconn⟩, rfl⟩
  | _ =>
    refine hl.move ?_ ?_ (act_move hrun)
    · rfl
    · simp

end Done

section Fresh

theorem finalized_of_descends_eq_false (hd : l.descends = false) :
    l.finalized now = l.torn.finished now := by
  rw [Link.finalized, if_neg (by simp [hd])]

theorem done_finished (now : ℤ) (l : Link) : (l.torn.finished now).Done := ⟨⟨rfl, rfl, rfl⟩, rfl⟩

/-- The first `disconnect` gives the connection back at once. -/
theorem Fresh.finalized (hl : l.Fresh) : l.down.finalized now = l.down.torn.finished now := by
  have hresponds : l.down.responds = false := hl.responds
  exact finalized_of_descends_eq_false (by rw [descends, hresponds, Bool.and_false])

/-- **A step before `connect` has been called, or with it.** -/
theorem Fresh.act {e : Event} {u : Unit} (hl : l.Fresh) (hrun : act rt e l = .ok u l') :
    l'.Fresh ∧ l'.raised = l.raised ∨ l'.Done ∧ l'.raised = l.raised ++ [.onDisconnected] ∨
      e = .connect ∧ l'.connSet = true ∧ l'.Awake := by
  obtain ⟨⟨hsocket, hsession, hpleas⟩, hresponds, hresolve, hconnect, hread, hwrite, hshutdown, htimer,
    hqueue⟩ := id hl
  cases e with
  | run now =>
    rcases handle_of_run hrun with rfl | ⟨h, queue, hcons, hhandle⟩
    · exact .inl ⟨hl, rfl⟩
    · obtain rfl : h = .workloopTimerElapsed true := hqueue h (by rw [hcons]; exact List.mem_cons_self)
      cases hhandle
      refine .inl ⟨⟨⟨hsocket, hsession, hpleas⟩, hresponds, hresolve, hconnect, hread, hwrite, hshutdown,
        htimer, fun h hh => hqueue h ?_⟩, rfl⟩
      rw [hcons]
      exact List.mem_cons_of_mem _ hh
  | connect =>
    cases connect_move hrun with
    | stay => exact .inl ⟨hl, rfl⟩
    | connectName _ hset => exact .inr (.inr ⟨rfl, hset, .inl rfl⟩)
    | connectAddress _ hset => exact .inr (.inr ⟨rfl, hset, .inl rfl⟩)
    | quiet he _ => exact nomatch he
  | disconnect now =>
    cases callDisconnect_move hrun with
    | stay => exact .inl ⟨hl, rfl⟩
    | disconnect hout =>
      cases hout with
      | quiet hk _ => exact absurd hk (by decide)
      | skip _ => exact .inl ⟨hl, rfl⟩
      | disconnect _ _ =>
        rw [hl.finalized]
        exact .inr (.inl ⟨done_finished now l.down, rfl⟩)
      | shutDown hopened _ => exact nomatch hsocket.symm.trans hopened
    | caught hclosed => exact nomatch hsocket.symm.trans hclosed
    | quiet he _ => exact nomatch he
  | submitSolution now solution =>
    obtain rfl := submitSolution_of_none hsession hrun
    exact .inl ⟨⟨⟨hsocket, hsession, hpleas⟩, hresponds, hresolve, hconnect, hread, hwrite, hshutdown,
      htimer, hqueue⟩, rfl⟩
  | resolved endpoints =>
    rcases complete_of_run hrun with rfl | ⟨hop, -⟩
    · exact .inl ⟨hl, rfl⟩
    · exact nomatch hresolve.symm.trans hop
  | connected ec hec =>
    rcases complete_of_run hrun with rfl | ⟨hop, -⟩
    · exact .inl ⟨hl, rfl⟩
    · exact nomatch hconnect.symm.trans hop
  | received rxMessage =>
    rcases complete_of_run hrun with rfl | ⟨hop, -⟩
    · exact .inl ⟨hl, rfl⟩
    · exact nomatch hread.symm.trans hop
  | sent ec ssl =>
    rcases complete_of_run hrun with rfl | ⟨hop, -⟩
    · exact .inl ⟨hl, rfl⟩
    · exact nomatch hwrite.symm.trans hop
  | shutdownCompleted =>
    rcases complete_of_run hrun with rfl | ⟨hop, -⟩
    · exact .inl ⟨hl, rfl⟩
    · exact nomatch hshutdown.symm.trans hop
  | expired =>
    rcases complete_of_run hrun with rfl | ⟨hop, -⟩
    · exact .inl ⟨hl, rfl⟩
    · exact absurd (of_decide_eq_true hop) htimer

end Fresh

section Tick

/-- What a tick reads of the client. -/
structure Same (l m : Link) : Prop where
  client : m.client = l.client
  responsetimeout : m.responsetimeout = l.responsetimeout

theorem keeps_same {l₀ : Link} {f : Link → Link} (hclient : ∀ l, (f l).client = l.client)
    (htimeout : ∀ l, (f l).responsetimeout = l.responsetimeout) :
    Preserves (Same l₀) (modify f : LinkM PUnit) :=
  keeps_modify fun l hl => ⟨(hclient l).trans hl.client, (htimeout l).trans hl.responsetimeout⟩

instance {l₀ : Link} (teardown : Bool) : Preserves (Same l₀) (useConn teardown) := by
  unfold useConn
  infer_instance

instance {l₀ : Link} : Preserves (Same l₀) sendSocketData := by
  refine Keeps.bind inferInstance fun l => ?_
  split_ifs
  · exact Keeps.bind (keeps_same (fun _ => rfl) fun _ => rfl) fun _ => keeps_same (fun _ => rfl) fun _ => rfl
  · exact Keeps.bind inferInstance fun _ => keeps_same (fun _ => rfl) fun _ => rfl

/-- Keeping the session alive changes nothing of that. -/
instance {l₀ : Link} : Preserves (Same l₀) (keepAlive now) := by
  have hsend (jReq : Json) : Preserves (Same l₀) (send jReq) := by
    refine Keeps.bind (keeps_same (fun _ => rfl) fun _ => rfl) fun _ => Keeps.bind inferInstance fun l => ?_
    split_ifs
    · infer_instance
    · exact Keeps.bind (keeps_same (fun _ => rfl) fun _ => rfl) fun _ => inferInstance
  refine Keeps.bind inferInstance fun l => ?_
  split_ifs <;> try infer_instance
  split <;> infer_instance

theorem checkPending_returns {b : Bool} (hrun : checkPending now l = .ok b l') :
    b = l.closesPending now := by
  unfold checkPending at hrun
  rw [run_get_bind] at hrun
  unfold closesPending
  split_ifs at hrun with hpending hconnecting hnull hsecure
  · exact nomatch hrun
  · cases hrun
    simp [hpending, hconnecting]
  · cases hrun
    simp [hpending, hsecure]
  · cases hrun
    grind
  · cases hrun
    grind

theorem giveUp_returns {b : Bool} (hrun : (giveUp now >>= fun _ => pure false : LinkM Bool) l = .ok b l') :
    b = false := by
  obtain ⟨_, m, -, hpure⟩ := bind_eq_ok.1 hrun
  cases hpure
  rfl

theorem checkConnected_returns {b : Bool} (hrun : checkConnected now l = .ok b l') :
    b = l.answersLogin now := by
  unfold checkConnected at hrun
  rw [run_get_bind] at hrun
  unfold answersLogin
  split_ifs at hrun with hconnected hdelay hlogin hwork
  · cases hrun
    grind
  · rw [giveUp_returns hrun]
    grind
  · rw [giveUp_returns hrun]
    grind
  · cases hrun
    grind
  · cases hrun
    grind

theorem checkPleas_returns {b : Bool} (hrun : checkPleas now l = .ok b l') : b = l.returnsEarly now := by
  unfold checkPleas at hrun
  rw [run_get_bind] at hrun
  unfold returnsEarly
  split_ifs at hrun with hcount
  · cases hrun
    simp [hcount]
  · obtain ⟨c, m, hpending, hrest⟩ := bind_eq_ok.1 hrun
    have hc := checkPending_returns hpending
    rcases checkPending_of_run hpending with ⟨rfl, rfl⟩ | ⟨rfl, -, -, -⟩
    · have hb := checkConnected_returns hrest
      simp [hcount, ← hc, hb]
    · cases hrest
      simp [hcount, ← hc]

/-- **A tick that does not return early arms the timer again.** -/
theorem workloopTimerElapsed_arms {u : Unit} (hconn : l.connSet = true)
    (hearly : l.returnsEarly now = false) (hrun : workloopTimerElapsed now false l = .ok u l') :
    l'.timer = .armed := by
  unfold workloopTimerElapsed at hrun
  rw [run_get_bind, if_neg (by simp [hconn])] at hrun
  obtain ⟨_, m, halive, hrest⟩ := bind_eq_ok.1 hrun
  obtain ⟨b, m', hcheck, hrest⟩ := bind_eq_ok.1 hrest
  have hquiet : Quiet l m := quiet_of_run halive
  have hsame : Same l m := by
    have hends := (inferInstance : Preserves (Same l) (keepAlive now)).ends l ⟨rfl, rfl⟩
    unfold Ends at hends
    rwa [halive] at hends
  have hb : b = l.returnsEarly now := by
    rw [checkPleas_returns hcheck]
    unfold returnsEarly closesPending answersLogin isConnected isPendingState
    rw [hsame.client, hsame.responsetimeout, hquiet.connecting, hquiet.disconnecting, hquiet.connected,
      hquiet.uri, hquiet.socket]
  rw [hb, hearly] at hrest
  cases hrest
  rfl

end Tick

/-- The connection is set and a tick is due. -/
structure Live (l : Link) : Prop where
  connSet : l.connSet = true
  awake : l.Awake

theorem Awake.of_subset (hl : l.Awake) (htimer : l.timer = .armed → l'.timer = .armed)
    (hkinds : ∀ k ∈ l.kinds, k ∈ l'.kinds) : l'.Awake := hl.imp htimer fun h => hkinds _ h

theorem Live.quiet (hl : l.Live) (h : Quiet l l') : l'.Live := by
  refine ⟨h.connSet.trans hl.connSet, hl.awake.of_subset h.timer fun k hk => ?_⟩
  obtain ⟨hs, hkinds, -⟩ := h.queue
  rw [hkinds]
  exact List.mem_append_left _ hk

/-- What appends to the queue, and leaves the timer and the connection alone. -/
theorem Live.of_prefix (hl : l.Live) (hconn : l'.connSet = l.connSet) (htimer : l'.timer = l.timer)
    (hqueue : l.queue <+: l'.queue) : l'.Live := by
  refine ⟨hconn.trans hl.connSet, hl.awake.of_subset (fun h => htimer.trans h) fun k hk => ?_⟩
  obtain ⟨h, hmem, rfl⟩ := List.mem_map.1 hk
  exact List.mem_map_of_mem (hqueue.subset hmem)

theorem closed_queue (s : Socket) (l : Link) : l.queue <+: (l.closed s).queue :=
  (List.prefix_append l.queue l.aborted).trans (List.prefix_append _ _)

theorem Live.finalized (hl : l.Live) : (l.finalized now).Live ∨ (l.finalized now).Done := by
  unfold Link.finalized
  split_ifs
  · exact .inl (hl.of_prefix rfl rfl ((closed_queue .null l).trans (List.prefix_append _ _)))
  · exact .inr ⟨⟨rfl, rfl, rfl⟩, rfl⟩
  · exact .inr ⟨⟨rfl, rfl, rfl⟩, rfl⟩

theorem Live.refused (hl : l.Live) : l.refused.Live := by
  unfold Link.refused
  split_ifs
  · exact hl.of_prefix rfl rfl (closed_queue .closed l)
  · exact hl

/-- **A handler other than a tick.** -/
theorem Live.outcome {k : Kind} (hl : l.Live) (h : Outcome now k l l') (hk : k ≠ .tick) :
    l'.Live ∨ l'.Done := by
  cases h with
  | quiet _ hquiet => exact .inl (hl.quiet hquiet)
  | skip _ => exact .inl hl
  | disconnect _ _ =>
    refine Live.finalized ?_
    exact hl.of_prefix rfl rfl List.prefix_rfl
  | shutDown _ _ => exact .inl (hl.of_prefix rfl rfl (List.prefix_append _ _))
  | finalize _ => exact hl.finalized
  | exhaust _ _ => exact hl.finalized
  | dial _ _ => exact .inl (hl.of_prefix rfl rfl List.prefix_rfl)
  | resolve n => exact .inl (hl.of_prefix rfl rfl (List.prefix_append _ _))
  | unresolved _ =>
    refine Live.finalized ?_
    exact hl.of_prefix rfl rfl List.prefix_rfl
  | refuse n _ => exact .inl (hl.refused.of_prefix rfl rfl (List.prefix_append _ _))
  | tlsFail _ _ => exact .inl (hl.of_prefix rfl rfl (List.prefix_append _ _))
  | accept _ _ hquiet =>
    refine .inl (Live.quiet ?_ hquiet)
    exact hl.of_prefix rfl rfl List.prefix_rfl
  | timeOut _ _ _ _ => exact absurd rfl hk
  | shutdown => exact .inl (hl.of_prefix rfl rfl (List.prefix_append _ _))

/-- The handler that is taken off is not the tick that is due. -/
theorem Live.pop {h : Handler} {queue : List Handler} (hl : l.Live) (hqueue : l.queue = h :: queue)
    (hk : h.kind ≠ .tick) : ({ l with queue := queue } : Link).Live := by
  refine ⟨hl.connSet, hl.awake.imp id fun hmem => ?_⟩
  rw [kinds, hqueue, List.map_cons, List.mem_cons] at hmem
  exact hmem.resolve_left fun h => hk h.symm

/-- **A handler.** -/
theorem Live.handle {h : Handler} {queue : List Handler} {u : Unit} (hl : l.Live)
    (hqueue : l.queue = h :: queue) (hearly : l.ticksEarly (.run now) = false)
    (hrun : handle rt now h { l with queue := queue } = .ok u l') : l'.Live ∨ l'.Done := by
  have hout := handle_outcome hrun
  by_cases hk : h.kind = .tick
  · obtain rfl : h = .workloopTimerElapsed false := by
      unfold Handler.kind at hk
      split at hk <;> simp_all
    have hreturns : l.returnsEarly now = false := by
      rw [ticksEarly, hqueue] at hearly
      simpa [hl.connSet] using hearly
    have harmed := workloopTimerElapsed_arms (l := { l with queue := queue }) hl.connSet hreturns hrun
    refine .inl ⟨?_, .inl harmed⟩
    cases hout with
    | quiet _ hquiet => exact hquiet.connSet.trans hl.connSet
    | skip h => exact absurd h (by simp [Handler.kind])
    | timeOut _ hquiet _ _ => exact hquiet.connSet.trans hl.connSet
  · exact (hl.pop hqueue hk).outcome hout hk

/-- The calls of the pool manager and the completions. -/
theorem Live.move {e : Event} (hl : l.Live) (hrun : ∀ now, e ≠ .run now) (h : Move e l l') :
    l'.Live ∨ l'.Done := by
  cases h with
  | stay => exact .inl hl
  | run _ _ => exact absurd rfl (hrun _)
  | connectName _ hset => exact .inl ⟨hset, .inl rfl⟩
  | connectAddress _ hset => exact .inl ⟨hset, .inl rfl⟩
  | disconnect hout => exact hl.outcome hout (by decide)
  | caught _ => exact .inl (hl.of_prefix rfl rfl List.prefix_rfl)
  | quiet _ hquiet => exact .inl (hl.quiet hquiet)
  | resolved _ => exact .inl (hl.of_prefix rfl rfl (List.prefix_append _ _))
  | connected _ => exact .inl (hl.of_prefix rfl rfl (List.prefix_append _ _))
  | shutdownCompleted _ => exact .inl (hl.of_prefix rfl rfl (List.prefix_append _ _))
  | expired _ => exact .inl ⟨hl.connSet, .inr (by simp [kinds, Handler.kind])⟩

/-- **A step while the connection is set and a tick is due.** -/
theorem Live.act {e : Event} {u : Unit} (hl : l.Live) (hearly : l.ticksEarly e = false)
    (hrun : act rt e l = .ok u l') : l'.Live ∨ l'.Done := by
  by_cases he : ∃ now, e = .run now
  · obtain ⟨now, rfl⟩ := he
    rcases handle_of_run hrun with rfl | ⟨h, queue, hqueue, hhandle⟩
    · exact .inl hl
    · exact hl.handle hqueue hearly hhandle
  · exact hl.move (fun now h => he ⟨now, h⟩) (act_move hrun)

/-- The client has not been asked to connect, is watched, or has given its connection back. -/
def Guarded (l : Link) : Prop := l.Fresh ∨ l.Done ∨ l.Live

theorem Guarded.watched (hl : l.Guarded) : l.Watched := by
  intro hcount
  rcases hl with hl | hl | hl
  · exact absurd hl.pleas hcount.ne'
  · exact absurd hl.pleas hcount.ne'
  · exact hl.awake

/-- **One step** that is not a tick that returns early. -/
theorem Guarded.act {e : Event} {u : Unit} (hl : l.Guarded) (hearly : l.ticksEarly e = false)
    (hrun : act rt e l = .ok u l') : l'.Guarded := by
  rcases hl with hl | hl | hl
  · rcases hl.act hrun with ⟨h, -⟩ | ⟨h, -⟩ | ⟨-, hconn, hawake⟩
    · exact .inl h
    · exact .inr (.inl h)
    · exact .inr (.inr ⟨hconn, hawake⟩)
  · exact .inr (.inl (hl.act hrun).toDone)
  · exact .inr (hl.act hearly hrun).symm

end Link

/-- **The client never waits without a watchdog**, in a run in which no tick returns early: in
every state a client that waits for a response has a tick due. -/
theorem waits_watched (rt : Runtime) (uri : URI) (conn : Conn) (worktimeout responsetimeout now : ℤ)
    (es : List Link.Event)
    (hearly : Along (LinkRun.next rt) (fun s e => s.link.ticksEarly e = false)
      ⟨.init uri conn worktimeout responsetimeout now, none⟩ es) :
    (run (LinkRun.next rt) ⟨.init uri conn worktimeout responsetimeout now, none⟩ es).Running
      Link.Watched := by
  have hfresh : (Link.init uri conn worktimeout responsetimeout now).Guarded :=
    .inl { socket := rfl, session := rfl, pleas := rfl, responds := rfl, resolveOp := rfl,
           connectOp := rfl, readOp := rfl, writeOp := rfl, shutdownOp := rfl,
           timer := (fun h => nomatch h), queue := (fun _ hh => nomatch hh) }
  intro hcrash
  exact (LinkRun.inv_of_acts hfresh (fun l e u l' hl hC hrun => hl.act hC hrun) hearly hcrash).watched

section PendingRun

/-- A pool that says nothing the client understands. -/
def silentRuntime : Runtime where
  parse _ := none
  valueToString _ := []
  lexicalCast _ := []
  toDouble q := q
  projectNameWithVersion := []

/-- A client that is about to connect to `stratum+tcp://user@pool.example:4444`. -/
def namedLink : Link :=
  .init
    { uri := "stratum+tcp://user@pool.example:4444".toList
      scheme := ⟨.stratum, .none, 0⟩
      host := "pool.example".toList
      port := 4444
      hostType := .dns }
    { stratumMode := 999, user := "user".toList } 180 2 0

/-- The host has two addresses.  The first tick comes while the first one is tried, closes the
socket and returns.  The second address accepts the connection, and the client waits for the
response to its login. -/
def pendingRun : List Link.Event :=
  [.connect, .run 0, .resolved (some 2), .run 0, .run 0, .expired, .run 500000000, .run 500000000,
    .run 500000000, .connected false false, .run 600000000]

/-- **A tick during a connection attempt leaves the client without a watchdog.** -/
theorem pendingRun_not_watched :
    (run (LinkRun.next silentRuntime) ⟨namedLink, none⟩ pendingRun).crash = none ∧
      (run (LinkRun.next silentRuntime) ⟨namedLink, none⟩ pendingRun).link.isConnected = true ∧
      (run (LinkRun.next silentRuntime) ⟨namedLink, none⟩ pendingRun).link.client.pleas.count = 1 ∧
      (run (LinkRun.next silentRuntime) ⟨namedLink, none⟩ pendingRun).link.timer = .idle ∧
      Kind.tick ∉ (run (LinkRun.next silentRuntime) ⟨namedLink, none⟩ pendingRun).link.kinds := by
  decide +kernel

/-- The client connects and logs in before the first tick, which arms the timer again. -/
def promptRun : List Link.Event :=
  [.connect, .run 0, .resolved (some 1), .run 0, .run 0, .connected false false, .run 100000000, .expired,
    .run 500000000]

/-- `waits_watched` at `promptRun`, which waits for a response. -/
theorem waits_watched_promptRun :
    0 < (run (LinkRun.next silentRuntime) ⟨namedLink, none⟩ promptRun).link.client.pleas.count ∧
      (run (LinkRun.next silentRuntime) ⟨namedLink, none⟩ promptRun).Running Link.Watched :=
  ⟨by decide +kernel, waits_watched silentRuntime _ _ 180 2 0 promptRun (by decide +kernel)⟩

end PendingRun

end Stratum
end EtcMiner
