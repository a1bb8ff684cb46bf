/-
# The two timeouts of the watchdog

`workloop_timer_elapsed` in `libpool/stratum/EthStratumClient.cpp` drops a pool that has not answered
for `m_responsetimeout` seconds and one that has not sent a job for `m_worktimeout` seconds.

A response is waited for while the connection is made, while it is shut down and while it is up.  Only
in the last of these phases is the timeout compared the right way round: a socket that connects or
shuts down is closed as long as the timeout has *not* passed (`responseTimeout_honoured_iff`).  The
work timeout is looked at only while a response is waited for, and in whole seconds
(`workTimeout_honoured_iff`).

`m_responsetimeout * 1000` is a product of `int`s, which the model takes as a number; `ProductFits`
says where the two agree.
-/

import EtcMiner.Stratum.Watchdog

namespace EtcMiner
namespace Stratum

open Common Eth Lib Pool

namespace Link

variable {l l' : Link} {now : ℤ}

/-- The oldest request has waited for the response timeout. -/
def TimedOut (now : ℤ) (l : Link) : Prop := l.responsetimeout * 1000000000 ≤ now - l.client.pleas.older

instance (now : ℤ) (l : Link) : Decidable (l.TimedOut now) := inferInstanceAs (Decidable (_ ≤ _))

/-- `m_responsetimeout * 1000` is an `int`. -/
def ProductFits (l : Link) : Prop := -2 ^ 31 ≤ l.responsetimeout * 1000 ∧ l.responsetimeout * 1000 < 2 ^ 31

instance (l : Link) : Decidable l.ProductFits := inferInstanceAs (Decidable (_ ∧ _))

/-- The handler `h` is posted between `l` and `l'`. -/
def Posts (h : Handler) (l l' : Link) : Prop := l.queue ++ [h] <+: l'.queue

/-- Between `l` and `l'` the socket of a pending connection is closed, or a connected pool is given up. -/
def GivesUp (l l' : Link) : Prop :=
  l.isPendingState ∧ l.socket = .opened ∧ l'.socket = .closed ∨
    l.isConnected ∧ (Posts (.processResponse loginTimeout) l l' ∨ Posts .disconnect l l')

/-- The client with a work timeout that has not passed.  What a tick does here it does because of a
missing response. -/
def unhurried (now : ℤ) (l : Link) : Link := { l with worktimeout := delaySeconds now l.client.currentTimestamp }

/-- The tick at the time `now` honours the response timeout: it is defined, and gives up because of a
missing response exactly when the timeout has passed. -/
structure HonoursResponse (now : ℤ) (l : Link) : Prop where
  product : l.connSet → l.isPendingState ∨ l.isConnected → l.ProductFits
  tick : ∃ l', workloopTimerElapsed now false (l.unhurried now) = .ok () l' ∧ (GivesUp l l' ↔ l.TimedOut now)

/-- A socket that connects or shuts down. -/
def opening (l : Link) : Bool := l.socket = .opened && (l.connecting || l.uri.isSecure)

/-- The login is under way in a mode to be found out. -/
def undetected (l : Link) : Bool := !l.client.conn.stratumModeConfirmed && !l.client.conn.unrecoverable

/-- When the response timeout is honoured. -/
def ResponseCondition (now : ℤ) (l : Link) : Prop :=
  if l.connSet = false then ¬ l.TimedOut now
  else if l.isPendingState then
    l.ProductFits ∧ if l.opening then delayMs now l.client.pleas.older = l.responsetimeout * 1000
      else ¬ l.TimedOut now ∧ ¬ (l.connecting ∧ l.socket = .null)
  else if l.isConnected then l.ProductFits ∧ (l.TimedOut now → l.undetected ∨ l.endpoints ≠ 0)
  else ¬ l.TimedOut now

/-- `workloop_timer_elapsed` after "No msg from client". -/
def watch (now : ℤ) : LinkM Unit := do
  if ← checkPleas now then return
  arm .armed

/-- "Resubmit timing operations". -/
def rearmed (l : Link) : Link :=
  { l with
    timer := .armed
    queue := if l.timer = .idle then l.queue else l.queue ++ [.workloopTimerElapsed true] }

/-- What is sent or waits to be sent. -/
structure Outgoing where
  txPending : Bool
  txQueue : List Json
  txLogins : List ℕ
  logins : List ℕ
  writeOp : Bool

/-- The client with other lines to send. -/
def sent (o : Outgoing) (l : Link) : Link :=
  { l with
    txPending := o.txPending
    txQueue := o.txQueue
    txLogins := o.txLogins
    logins := o.logins
    writeOp := o.writeOp }

/-- The login is answered in place of the pool. -/
def answered (now : ℤ) (l : Link) : Link :=
  { l with
    client := { l.client with pleas := Pleas.clear now }
    queue := l.queue ++ [.processResponse loginTimeout] }

/-- The pool is given up, with `n` endpoints left. -/
def givenUp (now : ℤ) (n : ℕ) (l : Link) : Link :=
  { l with
    endpoints := n
    client := { l.client with pleas := Pleas.clear now }
    queue := l.queue ++ [.disconnect] }

/-- A tick at the time `now` gives up a connected pool. -/
def drops (now : ℤ) (l : Link) : Bool :=
  l.isConnected &&
    if l.responsetimeout * 1000 ≤ delayMs now l.client.pleas.older then !l.undetected
    else l.client.session.isSome && l.worktimeout < delaySeconds now l.client.currentTimestamp

section Run

theorem sendSocketData_run (hconn : l.connSet = true) :
    ∃ o, sendSocketData l = .ok () (l.sent o) := by
  unfold sendSocketData
  rw [run_get_bind]
  split_ifs
  · exact ⟨⟨_, _, _, _, _⟩, rfl⟩
  · rw [run_bind_of_ok (useConn_run hconn)]
    exact ⟨⟨_, _, _, _, _⟩, rfl⟩

theorem send_run (jReq : Json) (hconn : l.connSet = true) :
    ∃ o, send jReq l = .ok () (l.sent o) := by
  unfold send
  rw [run_modify_bind, run_get_bind]
  by_cases hpending : l.txPending = true
  · rw [if_neg (not_not.2 hpending)]
    exact ⟨⟨_, _, _, _, _⟩, rfl⟩
  · rw [if_pos hpending, run_modify_bind]
    exact sendSocketData_run hconn

/-- Keeping the session alive returns and touches only what is sent. -/
theorem keepAlive_run (hconn : l.connSet = true) :
    ∃ o, keepAlive now l = .ok () (l.sent o) := by
  unfold keepAlive
  rw [run_get_bind]
  split_ifs
  · cases l.client.session with
    | none => exact ⟨⟨_, _, _, _, _⟩, rfl⟩
    | some s =>
      dsimp only
      split_ifs
      · exact send_run _ hconn
      · exact ⟨⟨_, _, _, _, _⟩, rfl⟩
  · exact ⟨⟨_, _, _, _, _⟩, rfl⟩

theorem workloopTimerElapsed_run (hconn : l.connSet = true) :
    ∃ o, workloopTimerElapsed now false l = watch now (l.sent o) := by
  obtain ⟨o, hrun⟩ := @keepAlive_run l now hconn
  refine ⟨o, ?_⟩
  unfold workloopTimerElapsed
  rw [run_get_bind, if_neg (by simp [hconn]), run_bind_of_ok hrun]
  rfl

/-- The tick closes the socket of a pending connection and returns. -/
theorem watch_closes (hcount : l.client.pleas.count ≠ 0) (hcloses : l.closesPending now = true)
    (hsocket : l.socket ≠ .null) : watch now l = .ok () (l.closed .closed) := by
  have hpending : checkPending now l = .ok true (l.closed .closed) := by
    simp only [closesPending, Bool.and_eq_true, Bool.or_eq_true, decide_eq_true_eq] at hcloses
    obtain ⟨hdelay, hphase⟩ := hcloses
    unfold checkPending
    rw [run_get_bind, if_pos hdelay]
    by_cases hconnecting : l.connecting = true
    · rw [if_pos hconnecting, if_neg hsocket]
      rfl
    · have hshutdown := hphase.resolve_left hconnecting
      rw [if_neg hconnecting, if_pos ⟨hshutdown.1.1, hshutdown.1.2, hshutdown.2⟩]
      rfl
  unfold watch checkPleas
  rw [bind_assoc, run_get_bind, if_neg hcount, bind_assoc, run_bind_of_ok hpending]
  rfl

/-- A socket that is null is not closed. -/
theorem watch_null (hcount : l.client.pleas.count ≠ 0) (hconnecting : l.connecting = true) (hnull : l.socket = .null)
    (hdelay : delayMs now l.client.pleas.older ≤ l.responsetimeout * 1000) :
    watch now l = .error .nullSocket l := by
  have hpending : checkPending now l = .error .nullSocket l := by
    unfold checkPending
    rw [run_get_bind, if_pos ⟨by simp [isPendingState, hconnecting], hdelay⟩, if_pos hconnecting, if_pos hnull]
    rfl
  unfold watch checkPleas
  rw [bind_assoc, run_get_bind, if_neg hcount, bind_assoc, run_bind_of_error hpending]

theorem checkPending_run_false (hcloses : l.closesPending now = false) : checkPending now l = .ok false l := by
  unfold checkPending
  rw [run_get_bind]
  simp only [closesPending, Bool.and_eq_false_iff, Bool.or_eq_false_iff, decide_eq_false_iff_not] at hcloses
  split_ifs with hpending hconnecting hnull hsecure
  · grind
  · grind
  · grind
  · rfl
  · rfl

theorem checkConnected_run :
    checkConnected now l = if l.answersLogin now then .ok true (l.answered now)
      else if l.drops now then (giveUp now >>= fun _ => pure false) l else .ok false l := by
  unfold checkConnected answersLogin drops undetected
  rw [run_get_bind]
  split_ifs <;> first | rfl | grind

theorem giveUp_run {n : ℕ} (hn : l.endpoints = n + 1) : giveUp now l = .ok () (l.givenUp now n) := by
  have hpop : popEndpoint l = .ok () { l with endpoints := n } := by
    unfold popEndpoint
    rw [run_get_bind, hn]
    rfl
  unfold giveUp
  rw [run_bind_of_ok hpop]
  rfl

theorem giveUp_run_zero (hn : l.endpoints = 0) : giveUp now l = .error .emptyQueue l := by
  have hpop : popEndpoint l = .error .emptyQueue l := by
    unfold popEndpoint
    rw [run_get_bind, hn]
    rfl
  unfold giveUp
  rw [run_bind_of_error hpop]

/-- The pool is given up and the timer armed again. -/
theorem giveUp_arm_run {n : ℕ} (hn : l.endpoints = n + 1) :
    (giveUp now >>= fun _ => arm .armed) l = .ok () (l.givenUp now n).rearmed := by
  rw [run_bind_of_ok (giveUp_run hn)]
  rfl

/-- Without an endpoint to pop. -/
theorem giveUp_arm_run_zero (hn : l.endpoints = 0) :
    (giveUp now >>= fun _ => arm .armed) l = .error .emptyQueue l :=
  run_bind_of_error (giveUp_run_zero hn) _

/-- The checks of a connection that is not closed while pending. -/
theorem watch_of_closesPending_eq_false (hcount : l.client.pleas.count ≠ 0) (hcloses : l.closesPending now = false) :
    watch now l = if l.answersLogin now then .ok () (l.answered now)
      else if l.drops now then (giveUp now >>= fun _ => arm .armed) l else .ok () l.rearmed := by
  unfold watch checkPleas
  rw [bind_assoc, run_get_bind, if_neg hcount, bind_assoc, run_bind_of_ok (checkPending_run_false hcloses)]
  simp only [Bool.false_eq_true, if_false]
  have hcheck := @checkConnected_run l now
  split_ifs at hcheck ⊢
  · rw [run_bind_of_ok hcheck]
    rfl
  · cases hn : l.endpoints with
    | zero =>
      rw [run_bind_of_error (giveUp_run_zero hn)] at hcheck
      rw [run_bind_of_error hcheck, giveUp_arm_run_zero hn]
    | succ n =>
      rw [run_bind_of_ok (giveUp_run hn)] at hcheck
      rw [run_bind_of_ok hcheck, giveUp_arm_run hn]
      rfl
  · rw [run_bind_of_ok hcheck]
    rfl

/-- A tick that has nothing to give up. -/
theorem watch_rests (hcount : l.client.pleas.count ≠ 0) (hcloses : l.closesPending now = false)
    (hconnected : l.isConnected = false) : watch now l = .ok () l.rearmed := by
  rw [watch_of_closesPending_eq_false hcount hcloses, if_neg (by simp [answersLogin, hconnected]),
    if_neg (by simp [drops, hconnected])]

end Run

section GivesUp

theorem posts_append {h : Handler} (hs : List Handler) (hqueue : l'.queue = l.queue ++ h :: hs) : Posts h l l' := by
  refine ⟨hs, ?_⟩
  rw [hqueue, List.append_assoc]
  rfl

theorem not_posts {h : Handler} (hh : h ≠ .workloopTimerElapsed true)
    (hqueue : l'.queue = l.queue ∨ l'.queue = l.queue ++ [.workloopTimerElapsed true]) : ¬ Posts h l l' := by
  intro hposts
  unfold Posts at hposts
  rcases hqueue with hqueue | hqueue
  · have hlength := hposts.length_le
    simp [hqueue] at hlength
  · rw [hqueue, List.prefix_append_right_inj] at hposts
    exact hh (List.cons_prefix_cons.1 hposts).1

/-- Arming the timer gives nothing up. -/
theorem not_givesUp (hsocket : l'.socket = l.socket)
    (hqueue : l'.queue = l.queue ∨ l'.queue = l.queue ++ [.workloopTimerElapsed true]) : ¬ GivesUp l l' := by
  rintro (⟨-, hopened, hclosed⟩ | ⟨-, hposts | hposts⟩)
  · rw [hsocket, hopened] at hclosed
    cases hclosed
  · exact not_posts (by simp) hqueue hposts
  · exact not_posts (by simp) hqueue hposts

theorem rearmed_queue (l : Link) :
    l.rearmed.queue = l.queue ∨ l.rearmed.queue = l.queue ++ [.workloopTimerElapsed true] := by
  by_cases hidle : l.timer = .idle
  · exact .inl (if_pos hidle)
  · exact .inr (if_neg hidle)

/-- A socket is closed by closing it if it was open. -/
theorem givesUp_closed_iff (hpending : l.isPendingState = true) (hclosed : l'.socket = .closed) :
    GivesUp l l' ↔ l.socket = .opened := by
  unfold GivesUp isConnected
  simp [hpending, hclosed]

/-- The timeout in milliseconds. -/
theorem timedOut_iff (hnow : l.client.pleas.older ≤ now) :
    l.TimedOut now ↔ l.responsetimeout * 1000 ≤ delayMs now l.client.pleas.older := by
  unfold TimedOut delayMs
  rw [Int.tdiv_eq_ediv_of_nonneg (by omega)]
  omega

end GivesUp

section Response

theorem honoursResponse_of_ok (hrun : workloopTimerElapsed now false (l.unhurried now) = .ok () l') :
    HonoursResponse now l ↔ (l.connSet → l.isPendingState ∨ l.isConnected → l.ProductFits) ∧
      (GivesUp l l' ↔ l.TimedOut now) := by
  constructor
  · rintro ⟨hproduct, l₁, hrun₁, htick⟩
    rw [hrun] at hrun₁
    cases hrun₁
    exact ⟨hproduct, htick⟩
  · rintro ⟨hproduct, htick⟩
    exact ⟨hproduct, l', hrun, htick⟩

theorem not_honoursResponse_of_error {e : Crash} (hrun : workloopTimerElapsed now false (l.unhurried now) = .error e l') :
    ¬ HonoursResponse now l := by
  rintro ⟨-, l₁, hrun₁, -⟩
  rw [hrun] at hrun₁
  cases hrun₁

/-- A client without a connection does nothing. -/
theorem honoursResponse_of_connSet_eq_false (hconn : l.connSet = false) :
    HonoursResponse now l ↔ ¬ l.TimedOut now := by
  have hrun : workloopTimerElapsed now false (l.unhurried now) = .ok () (l.unhurried now) := by
    unfold workloopTimerElapsed
    rw [run_get_bind, if_pos (.inr (by simp [unhurried, hconn]))]
    rfl
  have hno : ¬ GivesUp l (l.unhurried now) := not_givesUp rfl (.inl rfl)
  rw [honoursResponse_of_ok hrun]
  simp [hconn, hno]

/-- A tick that only arms the timer again. -/
theorem honoursResponse_of_rests (hconn : l.connSet = true) (hcount : l.client.pleas.count ≠ 0)
    (hcloses : l.closesPending now = false) (hconnected : l.isConnected = false) :
    HonoursResponse now l ↔ (l.isPendingState → l.ProductFits) ∧ ¬ l.TimedOut now := by
  obtain ⟨o, hrun⟩ := @workloopTimerElapsed_run (l.unhurried now) now hconn
  have hrests := hrun.trans (watch_rests hcount hcloses hconnected)
  have hno : ¬ GivesUp l ((l.unhurried now).sent o).rearmed := not_givesUp rfl (rearmed_queue _)
  rw [honoursResponse_of_ok hrests]
  simp [hconn, hconnected, hno]

/-- The phases in which a pending connection is closed. -/
theorem closesPending_iff (hpending : l.isPendingState = true) :
    l.closesPending now = true ↔
      delayMs now l.client.pleas.older ≤ l.responsetimeout * 1000 ∧ (l.connecting = true ∨ l.opening = true) := by
  have hstate : l.connecting = true ∨ l.disconnecting = true := by
    simpa [isPendingState] using hpending
  simp only [closesPending, hpending, opening, Bool.true_and, Bool.and_eq_true, Bool.or_eq_true, decide_eq_true_eq]
  grind

/-- A socket that is closed while the connection is pending. -/
theorem honoursResponse_of_closes (hconn : l.connSet = true) (hcount : l.client.pleas.count ≠ 0)
    (hpending : l.isPendingState = true) (hcloses : l.closesPending now = true) (hsocket : l.socket ≠ .null) :
    HonoursResponse now l ↔ l.ProductFits ∧ (l.socket = .opened ↔ l.TimedOut now) := by
  obtain ⟨o, hrun⟩ := @workloopTimerElapsed_run (l.unhurried now) now hconn
  rw [honoursResponse_of_ok (hrun.trans (watch_closes hcount hcloses hsocket)), givesUp_closed_iff hpending rfl]
  simp [hconn, hpending]

/-- **A pending connection is closed before the timeout and not after it.** -/
theorem honoursResponse_of_isPendingState (hconn : l.connSet = true) (hcount : l.client.pleas.count ≠ 0)
    (hnow : l.client.pleas.older ≤ now) (hpending : l.isPendingState = true) :
    HonoursResponse now l ↔ l.ProductFits ∧
      if l.opening then delayMs now l.client.pleas.older = l.responsetimeout * 1000
      else ¬ l.TimedOut now ∧ ¬ (l.connecting ∧ l.socket = .null) := by
  have hconnected : l.isConnected = false := by
    simp [isConnected, hpending]
  have hcloses := @closesPending_iff l now hpending
  by_cases hphase : l.closesPending now = true
  · obtain ⟨hdelay, hopening⟩ := hcloses.1 hphase
    cases hsocket : l.socket with
    | null =>
      obtain ⟨o, hrun⟩ := @workloopTimerElapsed_run (l.unhurried now) now hconn
      have hclosed : l.opening = false := by
        simp [opening, hsocket]
      have hconnecting := hopening.resolve_right (by simp [hclosed])
      have hcrash := not_honoursResponse_of_error (hrun.trans (watch_null hcount hconnecting hsocket hdelay))
      simp [hcrash, hclosed, hconnecting]
    | closed =>
      have hclosed : l.opening = false := by
        simp [opening, hsocket]
      rw [honoursResponse_of_closes hconn hcount hpending hphase (by simp [hsocket])]
      simp [hsocket, hclosed]
    | opened =>
      have hopened : l.opening = true := by
        simp only [opening, hsocket] at hopening ⊢
        grind
      rw [honoursResponse_of_closes hconn hcount hpending hphase (by simp [hsocket]), timedOut_iff hnow]
      simp only [hsocket, hopened, true_iff, if_true]
      exact and_congr_right fun _ => ⟨fun htimed => le_antisymm hdelay htimed, fun heq => heq.ge⟩
  · have hrests := honoursResponse_of_rests hconn hcount (Bool.eq_false_iff.2 hphase) hconnected
    rw [hcloses] at hphase
    rw [hrests, timedOut_iff hnow]
    grind

theorem closesPending_of_isConnected (hconnected : l.isConnected = true) : l.closesPending now = false := by
  have hpending : l.isPendingState = false := by
    simp only [isConnected, Bool.and_eq_true, Bool.not_eq_true'] at hconnected
    exact hconnected.2
  simp [closesPending, hpending]

/-- What a tick posts before it arms the timer. -/
theorem posts_rearmed {h : Handler} (hqueue : l'.queue = l.queue ++ [h]) : Posts h l l'.rearmed := by
  rcases rearmed_queue l' with hrearmed | hrearmed
  · exact posts_append [] (hrearmed.trans hqueue)
  · refine posts_append [.workloopTimerElapsed true] ?_
    rw [hrearmed, hqueue, List.append_assoc]
    rfl

/-- The checks of a connection that is up. -/
theorem watch_of_isConnected (hcount : l.client.pleas.count ≠ 0) (hconnected : l.isConnected = true) :
    watch now l = if l.answersLogin now then .ok () (l.answered now)
      else if l.drops now then (giveUp now >>= fun _ => arm .armed) l else .ok () l.rearmed :=
  watch_of_closesPending_eq_false hcount (closesPending_of_isConnected hconnected)

/-- **A connected pool is given up at the timeout**, if there is an endpoint to pop. -/
theorem honoursResponse_of_isConnected (hconn : l.connSet = true) (hcount : l.client.pleas.count ≠ 0)
    (hnow : l.client.pleas.older ≤ now) (hconnected : l.isConnected = true) :
    HonoursResponse now l ↔ l.ProductFits ∧ (l.TimedOut now → l.undetected ∨ l.endpoints ≠ 0) := by
  obtain ⟨o, hrun⟩ := @workloopTimerElapsed_run (l.unhurried now) now hconn
  have hwatch := hrun.trans (watch_of_isConnected hcount hconnected)
  have hproduct : (l.connSet → l.isPendingState ∨ l.isConnected → l.ProductFits) ↔ l.ProductFits :=
    ⟨fun h => h hconn (.inr hconnected), fun h _ _ => h⟩
  have hanswers : ((l.unhurried now).sent o).answersLogin now = true ↔ l.TimedOut now ∧ l.undetected = true := by
    change l.answersLogin now = true ↔ _
    simp [answersLogin, undetected, hconnected, timedOut_iff hnow, and_assoc]
  have hdrops : ((l.unhurried now).sent o).drops now = true ↔ l.TimedOut now ∧ l.undetected = false := by
    change (l.unhurried now).drops now = true ↔ _
    have hconnected' : (l.unhurried now).isConnected = true := hconnected
    simp only [drops, hconnected', timedOut_iff hnow]
    simp only [unhurried, undetected]
    grind
  by_cases htimed : l.TimedOut now
  · cases hlogin : l.undetected with
    | true =>
      rw [if_pos (hanswers.2 ⟨htimed, hlogin⟩)] at hwatch
      have hgives : GivesUp l (((l.unhurried now).sent o).answered now) :=
        .inr ⟨hconnected, .inl (posts_append [] rfl)⟩
      rw [honoursResponse_of_ok hwatch, hproduct]
      simp [htimed, hgives]
    | false =>
      rw [if_neg (by simp [hanswers, hlogin]), if_pos (hdrops.2 ⟨htimed, hlogin⟩)] at hwatch
      cases hn : l.endpoints with
      | zero =>
        have hcrash := not_honoursResponse_of_error (hwatch.trans (giveUp_arm_run_zero hn))
        simp [hcrash, htimed]
      | succ n =>
        have hgives : GivesUp l (((l.unhurried now).sent o).givenUp now n).rearmed :=
          .inr ⟨hconnected, .inr (posts_rearmed rfl)⟩
        rw [honoursResponse_of_ok (hwatch.trans (giveUp_arm_run hn)), hproduct]
        simp [htimed, hgives]
  · rw [if_neg (by simp [hanswers, htimed]), if_neg (by simp [hdrops, htimed])] at hwatch
    have hno : ¬ GivesUp l ((l.unhurried now).sent o).rearmed := not_givesUp rfl (rearmed_queue _)
    rw [honoursResponse_of_ok hwatch, hproduct]
    simp [htimed, hno]

/-- The client of `pendingRun` while it connects to the first address; it waits since the time 0. -/
def connectingLink : Link := (run (LinkRun.next silentRuntime) ⟨namedLink, none⟩ (pendingRun.take 5)).link

/-- The client of `promptRun` once it is connected. -/
def connectedLink : Link := (run (LinkRun.next silentRuntime) ⟨namedLink, none⟩ (promptRun.take 7)).link

end Response

section Work

/-- The tick at the time `now` honours the work timeout: if it has passed, the tick is defined and
posts a disconnect. -/
def HonoursWork (now : ℤ) (l : Link) : Prop :=
  l.worktimeout * 1000000000 < now - l.client.currentTimestamp →
    (l.client.pleas.count ≠ 0 → l.ProductFits) ∧
      ∃ l', workloopTimerElapsed now false l = .ok () l' ∧ Posts .disconnect l l'

/-- When the work timeout is honoured. -/
def WorkCondition (now : ℤ) (l : Link) : Prop :=
  l.worktimeout * 1000000000 < now - l.client.currentTimestamp →
    l.connSet = true ∧ l.client.pleas.count ≠ 0 ∧ l.ProductFits ∧ l.endpoints ≠ 0 ∧
      l.worktimeout < delaySeconds now l.client.currentTimestamp

/-- A tick that posts nothing. -/
theorem not_posts_disconnect (hrun : workloopTimerElapsed now false l = .ok () l')
    (hqueue : l'.queue = l.queue ∨ l'.queue = l.queue ++ [.workloopTimerElapsed true]) :
    ¬ ∃ l', workloopTimerElapsed now false l = .ok () l' ∧ Posts .disconnect l l' := by
  rintro ⟨l₁, hrun₁, hposts⟩
  rw [hrun] at hrun₁
  cases hrun₁
  exact not_posts (by simp) hqueue hposts

/-- The disconnect of a client that waits for a response, which is not missing yet. -/
theorem posts_disconnect_iff {s : Session} (hconn : l.connSet = true) (hcount : l.client.pleas.count ≠ 0)
    (hconnected : l.isConnected = true) (hs : l.client.session = some s)
    (hearly : delayMs now l.client.pleas.older < l.responsetimeout * 1000) :
    (∃ l', workloopTimerElapsed now false l = .ok () l' ∧ Posts .disconnect l l') ↔
      l.endpoints ≠ 0 ∧ l.worktimeout < delaySeconds now l.client.currentTimestamp := by
  obtain ⟨o, hrun⟩ := @workloopTimerElapsed_run l now hconn
  have hwatch := hrun.trans (watch_of_isConnected hcount hconnected)
  have hanswers : (l.sent o).answersLogin now = false := by
    change l.answersLogin now = false
    simp [answersLogin, hearly]
  have hdrops : (l.sent o).drops now = true ↔ l.worktimeout < delaySeconds now l.client.currentTimestamp := by
    change l.drops now = true ↔ _
    simp [drops, hconnected, hearly.not_ge, hs]
  rw [if_neg (by simp [hanswers])] at hwatch
  by_cases hlate : l.worktimeout < delaySeconds now l.client.currentTimestamp
  · rw [if_pos (hdrops.2 hlate)] at hwatch
    cases hn : l.endpoints with
    | zero =>
      rw [hwatch.trans (giveUp_arm_run_zero hn)]
      simp
    | succ n =>
      have hposts : Posts .disconnect l ((l.sent o).givenUp now n).rearmed := posts_rearmed rfl
      refine iff_of_true ⟨_, hwatch.trans (giveUp_arm_run hn), hposts⟩ ⟨Nat.succ_ne_zero n, hlate⟩
  · rw [if_neg (by simp [hdrops, hlate])] at hwatch
    exact iff_of_false (not_posts_disconnect hwatch (rearmed_queue _)) fun h => hlate h.2

/-- A tick without a response to wait for looks at nothing. -/
theorem watch_of_count_eq_zero (hcount : l.client.pleas.count = 0) : watch now l = .ok () l.rearmed := by
  unfold watch checkPleas
  rw [bind_assoc, run_get_bind, if_pos hcount]
  rfl

/-- **When the work timeout is honoured** by a client that is connected with a session and whose pool
is not dropped for a missing response. -/
theorem workTimeout_honoured_iff (l : Link) (now : ℤ) (s : Session) (hconnected : l.isConnected = true)
    (hs : l.client.session = some s)
    (hearly : l.client.pleas.count = 0 ∨ delayMs now l.client.pleas.older < l.responsetimeout * 1000) :
    HonoursWork now l ↔ l.WorkCondition now := by
  refine imp_congr_right fun _ => ?_
  by_cases hconn : l.connSet = true
  · by_cases hcount : l.client.pleas.count = 0
    · obtain ⟨o, hrun⟩ := @workloopTimerElapsed_run l now hconn
      have hrests := hrun.trans (watch_of_count_eq_zero hcount)
      exact iff_of_false (fun h => not_posts_disconnect hrests (rearmed_queue _) h.2) fun h => h.2.1 hcount
    · rw [posts_disconnect_iff hconn hcount hconnected hs (hearly.resolve_left hcount)]
      simp [hconn, hcount]
  · have hrun : workloopTimerElapsed now false l = .ok () l := by
      unfold workloopTimerElapsed
      rw [run_get_bind, if_pos (.inr hconn)]
      rfl
    exact iff_of_false (fun h => not_posts_disconnect hrun (.inl rfl) h.2) fun h => hconn h.1

/-- `connectedLink` with a session that started at the time 0 and with `pleas`, when its timer has
expired. -/
def workingLink (pleas : Pleas) : Link :=
  { connectedLink with
    timer := .idle
    client := { connectedLink.client with session := some {}, pleas := pleas } }

/-- **Without a response to wait for the work timeout is not looked at**: no job comes for a day. -/
theorem work_not_watched : (workingLink { older := 0 }).isConnected = true ∧
    (workingLink { older := 0 }).worktimeout = 180 ∧ ¬ HonoursWork 86400000000000 (workingLink { older := 0 }) := by
  refine ⟨by decide +kernel, by decide +kernel, fun hhonours => ?_⟩
  obtain ⟨-, l', hrun, hposts⟩ := hhonours (by decide +kernel)
  have hqueue : (final (workloopTimerElapsed 86400000000000 false) (workingLink { older := 0 })).queue.length =
      (workingLink { older := 0 }).queue.length := by
    decide +kernel
  rw [final, hrun] at hqueue
  have hlength := hposts.length_le
  rw [List.length_append, hqueue] at hlength
  simp at hlength

/-- With a request that was sent a second ago it is. -/
theorem workTimeout_honoured_waiting : HonoursWork 181000000000 (workingLink { older := 180000000000, count := 1 }) := by
  refine (workTimeout_honoured_iff (workingLink { older := 180000000000, count := 1 }) 181000000000 {}
    (by decide +kernel) rfl (.inr (by decide +kernel))).2 ?_
  unfold WorkCondition
  decide +kernel

end Work

end Link

end Stratum
end EtcMiner
