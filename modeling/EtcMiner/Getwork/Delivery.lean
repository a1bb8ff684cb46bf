/-
# Delivery of getwork requests

What becomes of the requests handed to `send`.  A getwork client is a sender with one request in
flight (`Client.sender`), and `Move` says what one event does to it: it joins the queue, begins a
connection, writes, reads, ends.

Three things go wrong.  The queue is full: `bounded_push` drops the request, and since the
constructor allocates no nodes this is every request (`requests_lost`).  A write fails: the
request is off the queue and is not sent again, and what is left of it in `m_request` goes out before
the next one.  An operation is aborted while the client goes on: `m_txPending` stays set with nothing
under way.

**`requests_delivered`**: along a run every connection carries one whole request and no request is
lost exactly when every request finds a node free and no write fails.  If besides nothing is aborted
and every operation ends, all requests handed over at any time are dequeued some time later, or the
client has disconnected.  The rank of the proof is the number of requests to dequeue, then the phase,
then the endpoints left, where a new `connect()` or its resolver may add some once.
-/

import EtcMiner.Getwork.Polling
import EtcMiner.Lib.Endless
import EtcMiner.Lib.OneInFlight
import Mathlib.Data.Prod.Lex
import Mathlib.Order.WellFounded

namespace EtcMiner
namespace Getwork

open Common Eth Lib Stratum

/-- The sender inside a client. -/
def Client.sender (c : Client) : Sender (List Char) Char where
  encode := post c.host c.path
  capacity := c.nodes
  busy := c.txPending
  connecting := c.connectOp
  writing := c.writeOp
  reading := c.readOp
  waiting := c.txQueue
  buffer := c.request
  sent := c.sent
  dequeued := c.dequeued
  discarded := c.discarded
  wire := c.wire

theorem post_ne_nil (host path line : List Char) : post host path line ≠ [] := by
  unfold post
  iterate 7 refine List.append_ne_nil_of_left_ne_nil ?_ _
  exact List.cons_ne_nil 'P' _

section Steps

variable (w : Writer) (rt : Runtime)

/-- The client after `begin_connect()`. -/
def Client.begun (c : Client) : Client := if c.endpoints ≠ 0 then { c with connectOp := true } else c.closed

/-- The client after `send`. -/
def Client.posted (c : Client) (line : List Char) : Client :=
  if c.txPending then c.push line else { c.push line with txPending := true }.begun

theorem run_beginConnect (c : Client) : beginConnect c = .ok () c.begun := by
  simp only [beginConnect, run_get_bind, Client.begun]
  split <;> rfl

theorem run_send (c : Client) (line : List Char) : send line c = .ok () (c.posted line) := by
  simp only [send, run_modify_bind, run_get_bind, Client.posted]
  have hpending : (c.push line).txPending = c.txPending := rfl
  rw [hpending]
  cases c.txPending with
  | true => rfl
  | false => exact run_beginConnect _

/-- The event calls `send`. -/
def Client.sends (c : Client) : Event → Bool
  | .connect => !c.connecting && !c.isName
  | .submitHashrate _ _ | .submitSolution _ => c.session
  | .resolved (some _) => c.resolveOp
  | .expired now => c.elapsed ≠ 0 && c.worktimeout ≥ (now - c.currentTstamp).tdiv 1000000000
  | _ => false

/-- A write ends with an error. -/
def Client.breaks (c : Client) : Event → Bool
  | .written (.failed _) | .written (.aborted _) => c.writeOp
  | _ => false

/-- A connection attempt or a read is aborted. -/
def Client.aborts (c : Client) : Event → Bool
  | .connected _ .aborted => c.connectOp
  | .read _ _ .aborted => c.readOp
  | _ => false

/-- An operation under way ends. -/
def Client.completes (c : Client) : Event → Bool
  | .connected _ _ => c.connectOp
  | .written _ => c.writeOp
  | .read _ _ _ => c.readOp
  | _ => false

/-- How often the client may connect before it takes up a connection: `connect()` and its resolver
set the endpoints once more, and each attempt uses one up. -/
def Client.tries (c : Client) : ℕ ×ₗ ℕ :=
  toLex ((if c.connecting then 0 else 2) + (if c.resolveOp then 1 else 0), c.endpoints)

/-- What an event does to a client that has not ended. -/
inductive Move (c : Client) (e : Event) (c' : Client) : Prop where
  | quiet (hsends : c.sends e = false) (hcompletes : c.completes e = false) (hsame : c'.sender = c.sender)
      (hlive : c'.ended = false) (htries : c'.tries ≤ c.tries)
  | posted (c₁ : Client) (line : List Char) (h : c' = c₁.posted line) (hline : line ≠ [])
      (hsends : c.sends e = true) (hcompletes : c.completes e = false) (hsame : c₁.sender = c.sender)
      (hlive : c₁.ended = false) (htries : c₁.tries ≤ c.tries)
  | finished (hsends : c.sends e = false) (hbreaks : c.breaks e = false) (hend : c'.ended = true)
      (hwhole : c'.sender.Whole ↔ c.sender.Whole) (htexts : c'.txQueue ⊆ c.txQueue)
  | connected (now : ℤ) (he : e = .connected now .ok) (hop : c.connectOp = true)
      (h : c' = writeFirst rt now (openSession now { c with connectOp := false }))
  | retried (now : ℤ) (n : ℕ) (he : e = .connected now .failed) (hop : c.connectOp = true)
      (hendpoints : c.endpoints = n + 1) (h : c' = { c with connectOp := false, endpoints := n }.begun)
  | aborted (haborts : c.aborts e = true) (hbreaks : c.breaks e = false) (hsends : c.sends e = false)
      (h : c.connectOp = true ∧ c' = { c with connectOp := false } ∨ c.readOp = true ∧ c' = { c with readOp := false })
  | written (he : e = .written .ok) (hop : c.writeOp = true)
      (h : c' = { c with writeOp := false, request := [], readOp := true })
  | broken (n : ℕ) (hbreaks : c.breaks e = true) (hop : c.writeOp = true)
      (h : c'.sender.Whole ↔ (c.broken n).sender.Whole)
  | answered (c₁ : Client) (he : c.sends e = false) (hbreaks : c.breaks e = false) (hop : c.readOp = true)
      (hsame : c₁.sender = { c with readOp := false }.sender) (hlive : c₁.ended = false) (htries : c₁.tries = c.tries)
      (h : c' = if c₁.txQueue ≠ [] then c₁.begun else { c₁ with txPending := false })

/-- What responses leave alone. -/
structure Aside (c c' : Client) : Prop where
  sender : c'.sender = c.sender
  ended : c'.ended = c.ended
  tries : c'.tries = c.tries

section Aside

variable (c : Client) (now : ℤ) (throws : WorkPackage → Bool)

instance {α : Type} (o : Option α) : Preserves (Aside c) (expect o) := by
  cases o with
  | none => exact inferInstanceAs (Preserves _ (throw _))
  | some a => exact inferInstanceAs (Preserves _ (pure a))

instance : Preserves (Aside c) armTimer := keeps_modify fun _ h => ⟨h.sender, h.ended, h.tries⟩

instance (newWp : WorkPackage) : Preserves (Aside c) (workReceived now throws newWp) := by
  have hmodify : Preserves (Aside c) (modify fun c => { c with
      current := newWp
      currentTstamp := now
      raised := c.raised ++ [.onWorkReceived newWp] } : GetworkM Unit) :=
    keeps_modify fun _ h => ⟨h.sender, h.ended, h.tries⟩
  unfold workReceived
  infer_instance

instance (id : BitVec 32) (isSuccess : Bool) (jRes : Json) : Preserves (Aside c) (solutionResponse now id isSuccess jRes) := by
  have hmodify (callback : Callback) :
      Preserves (Aside c) (modify fun c => { c with raised := c.raised ++ [callback] } : GetworkM Unit) :=
    keeps_modify fun _ h => ⟨h.sender, h.ended, h.tries⟩
  unfold solutionResponse
  infer_instance

instance (isSuccess : Bool) (jRes : Json) : Preserves (Aside c) (workResponse rt now throws isSuccess jRes) := by
  unfold workResponse
  infer_instance

instance (jRes : Json) : Preserves (Aside c) (processResponse rt now throws jRes) := by
  unfold processResponse
  infer_instance

instance (line : List Char) : Preserves (Aside c) (processBody rt now throws line) := by
  unfold processBody
  split <;> infer_instance

instance (lines : List (List Char)) : Preserves (Aside c) (forM lines (processBody rt now throws)) := by
  induction lines with
  | nil => exact inferInstanceAs (Preserves _ (pure _))
  | cons line lines ih =>
    rw [List.forM_cons]
    infer_instance

end Aside

variable {c : Client} {e : Event}

theorem next_of_ok {c' : Client} (hc : c.ended = false) (h : act w rt e c = .ok () c') : c.next w rt e = c' := by
  simp only [Client.next, hc, h, Bool.false_eq_true, if_false]

theorem next_of_error {c' : Client} {crash : Crash} (hc : c.ended = false) (h : act w rt e c = .error crash c') :
    c.next w rt e = { c' with ended := true } := by
  simp only [Client.next, hc, h, Bool.false_eq_true, if_false]

theorem run_complete {op : Client → Bool} {done : Client → Client} {x : GetworkM Unit} (h : op c = true) :
    complete op done x c = x (done c) := by
  simp only [complete, run_get_bind, h, if_true]
  rfl

theorem run_complete_of_not {op : Client → Bool} {done : Client → Client} {x : GetworkM Unit} (h : op c = false) :
    complete op done x c = .ok () c := by
  simp only [complete, run_get_bind, h, Bool.false_eq_true, if_false]
  rfl

/-- An event whose operation is not under way. -/
theorem Move.nothing (hc : c.ended = false) (hsends : c.sends e = false) (hcompletes : c.completes e = false)
    (h : act w rt e c = .ok () c) : Move rt c e (c.next w rt e) := by
  rw [next_of_ok w rt hc h]
  exact .quiet hsends hcompletes rfl hc le_rfl

/-- An event at which the client disconnects. -/
theorem Move.closing {c₁ : Client} (hsends : c.sends e = false) (hbreaks : c.breaks e = false)
    (hwhole : c₁.sender.Whole ↔ c.sender.Whole) : Move rt c e c₁.closed :=
  .finished hsends hbreaks rfl (Sender.whole_close_iff.trans hwhole) (List.nil_subset _)

theorem move_connect (hc : c.ended = false) : Move rt c .connect (c.next w rt .connect) := by
  cases hconnecting : c.connecting with
  | true =>
    refine .nothing w rt hc (by simp [Client.sends, hconnecting]) rfl ?_
    simp only [act, connect, run_get_bind, hconnecting, if_true]
    rfl
  | false =>
    have htries (c₁ : Client) (hflag : c₁.connecting = true) : c₁.tries ≤ c.tries := by
      refine Prod.Lex.toLex_le_toLex.2 (.inl ?_)
      simp only [hflag, hconnecting, Bool.false_eq_true, if_true, if_false]
      split <;> omega
    cases hname : c.isName with
    | true =>
      have hact : act w rt .connect c =
          .ok () { c with connecting := true, timer := false, endpoints := 0, resolveOp := true } := by
        simp only [act, connect, run_get_bind, run_modify_bind, hconnecting, hname, Bool.false_eq_true, if_true, if_false]
        rfl
      rw [next_of_ok w rt hc hact]
      exact .quiet (by simp [Client.sends, hname]) rfl rfl hc (htries _ rfl)
    | false =>
      have hact : act w rt .connect c =
          .ok () ({ c with connecting := true, timer := false, endpoints := 1 }.posted (jsonGetWork w)) := by
        simp only [act, connect, run_get_bind, run_modify_bind, hconnecting, hname, Bool.false_eq_true, if_false]
        exact run_send _ _
      rw [next_of_ok w rt hc hact]
      exact .posted _ _ rfl (w.ne_nil _) (by simp [Client.sends, hname, hconnecting]) rfl rfl hc (htries _ rfl)

theorem move_submitHashrate (hc : c.ended = false) (rate : BitVec 64) (id : List Char) :
    Move rt c (.submitHashrate rate id) (c.next w rt (.submitHashrate rate id)) := by
  cases hsession : c.session with
  | true =>
    have hact : act w rt (.submitHashrate rate id) c = .ok () (c.posted (w.writeString (hashrateRequest rate id))) := by
      simp only [act, submitHashrate, run_get_bind, hsession, if_true]
      exact run_send _ _
    rw [next_of_ok w rt hc hact]
    exact .posted _ _ rfl (w.ne_nil _) hsession rfl rfl hc le_rfl
  | false =>
    refine .nothing w rt hc hsession rfl ?_
    simp only [act, submitHashrate, run_get_bind, hsession, Bool.false_eq_true, if_false]
    rfl

theorem move_submitSolution (hc : c.ended = false) (solution : Solution) :
    Move rt c (.submitSolution solution) (c.next w rt (.submitSolution solution)) := by
  cases hsession : c.session with
  | true =>
    have hact : act w rt (.submitSolution solution) c =
        .ok () ({ c with
          solutionSubmittedMaxId :=
            if c.solutionSubmittedMaxId < solutionId solution then solutionId solution
            else c.solutionSubmittedMaxId }.posted (w.writeString (solutionRequest solution))) := by
      simp only [act, submitSolution, run_get_bind, run_modify_bind, hsession, if_true]
      exact run_send _ _
    rw [next_of_ok w rt hc hact]
    exact .posted _ _ rfl (w.ne_nil _) hsession rfl rfl hc le_rfl
  | false =>
    refine .nothing w rt hc hsession rfl ?_
    simp only [act, submitSolution, run_get_bind, hsession, Bool.false_eq_true, if_false]
    rfl

theorem move_resolved (hc : c.ended = false) (endpoints : Option ℕ) :
    Move rt c (.resolved endpoints) (c.next w rt (.resolved endpoints)) := by
  cases hop : c.resolveOp with
  | false =>
    refine .nothing w rt hc ?_ rfl (run_complete_of_not hop)
    cases endpoints with
    | none => rfl
    | some n => exact hop
  | true =>
    cases endpoints with
    | none =>
      have hact : act w rt (.resolved none) c = .ok () { c with resolveOp := false }.closed := run_complete hop
      rw [next_of_ok w rt hc hact]
      exact .closing rt rfl rfl Iff.rfl
    | some n =>
      have hact : act w rt (.resolved (some n)) c =
          .ok () ({ c with resolveOp := false, endpoints := c.endpoints + n }.posted (jsonGetWork w)) :=
        (run_complete hop).trans (run_send _ _)
      rw [next_of_ok w rt hc hact]
      refine .posted _ _ rfl (w.ne_nil _) hop rfl rfl hc (Prod.Lex.toLex_le_toLex.2 (.inl ?_))
      simp [hop]

theorem move_expired (hc : c.ended = false) (now : ℤ) : Move rt c (.expired now) (c.next w rt (.expired now)) := by
  by_cases hop : c.elapsed = 0
  · exact .nothing w rt hc (by simp [Client.sends, hop]) rfl (run_complete_of_not (by simp [hop]))
  have hrun : act w rt (.expired now) c = getworkTimerElapsed w now { c with elapsed := c.elapsed - 1 } :=
    run_complete (by simp [hop])
  by_cases hlate : c.worktimeout < (now - c.currentTstamp).tdiv 1000000000
  · have hsends : c.sends (.expired now) = false := by simp [Client.sends, hlate]
    simp only [getworkTimerElapsed, run_get_bind, hlate, if_true, popEndpoint] at hrun
    cases hendpoints : c.endpoints with
    | zero =>
      have hact : act w rt (.expired now) c = .error .emptyQueue { c with elapsed := c.elapsed - 1 } := by
        rw [hrun]
        simp only [run_get_bind, hendpoints, bind_assoc]
        rfl
      rw [next_of_error w rt hc hact]
      exact .finished hsends rfl rfl Iff.rfl (List.Subset.refl _)
    | succ n =>
      have hact : act w rt (.expired now) c = .ok () { c with elapsed := c.elapsed - 1, endpoints := n }.closed := by
        rw [hrun]
        simp only [run_get_bind, hendpoints, bind_assoc]
        rfl
      rw [next_of_ok w rt hc hact]
      exact .closing rt hsends rfl Iff.rfl
  · have hact : act w rt (.expired now) c = .ok () ({ c with elapsed := c.elapsed - 1 }.posted (jsonGetWork w)) := by
      rw [hrun]
      simp only [getworkTimerElapsed, run_get_bind, hlate, if_false]
      exact run_send _ _
    rw [next_of_ok w rt hc hact]
    refine .posted _ _ rfl (w.ne_nil _) ?_ rfl rfl hc le_rfl
    simpa [Client.sends, hop] using hlate

theorem whole_begun_iff (c : Client) : c.begun.sender.Whole ↔ c.sender.Whole := by
  unfold Client.begun
  split
  · exact Iff.rfl
  · exact Sender.whole_close_iff (v := c.sender)

/-- An endpoint is given up and the next one tried. -/
theorem run_retry_succ {n : ℕ} (h : c.endpoints = n + 1) :
    (do popEndpoint; beginConnect : GetworkM Unit) c = .ok () { c with endpoints := n }.begun := by
  simp only [popEndpoint, bind_assoc, run_get_bind, h]
  exact run_beginConnect _

/-- There is none to give up. -/
theorem run_retry_zero (h : c.endpoints = 0) :
    (do popEndpoint; beginConnect : GetworkM Unit) c = .error .emptyQueue c := by
  simp only [popEndpoint, bind_assoc, run_get_bind, h]
  rfl

theorem move_connected (hc : c.ended = false) (now : ℤ) (outcome : Outcome) :
    Move rt c (.connected now outcome) (c.next w rt (.connected now outcome)) := by
  cases hop : c.connectOp with
  | false => exact .nothing w rt hc rfl hop (run_complete_of_not hop)
  | true =>
    have hrun : act w rt (.connected now outcome) c = handleConnect rt now outcome { c with connectOp := false } :=
      run_complete hop
    cases outcome with
    | ok =>
      rw [next_of_ok w rt hc hrun]
      exact .connected now rfl hop rfl
    | failed =>
      cases hendpoints : c.endpoints with
      | zero =>
        rw [next_of_error w rt hc (hrun.trans (run_retry_zero hendpoints))]
        exact .finished rfl rfl rfl Iff.rfl (List.Subset.refl _)
      | succ n =>
        rw [next_of_ok w rt hc (hrun.trans (run_retry_succ hendpoints))]
        exact .retried now n rfl hop hendpoints rfl
    | aborted =>
      rw [next_of_ok w rt hc hrun]
      exact .aborted hop rfl rfl (.inl ⟨hop, rfl⟩)

theorem move_written (hc : c.ended = false) (outcome : Sent) :
    Move rt c (.written outcome) (c.next w rt (.written outcome)) := by
  cases hop : c.writeOp with
  | false => exact .nothing w rt hc rfl hop (run_complete_of_not hop)
  | true =>
    have hrun : act w rt (.written outcome) c = handleWrite outcome { c with writeOp := false } := run_complete hop
    cases outcome with
    | ok =>
      rw [next_of_ok w rt hc hrun]
      exact .written rfl hop rfl
    | failed n =>
      cases hendpoints : c.endpoints with
      | zero =>
        rw [next_of_error w rt hc (hrun.trans (run_retry_zero hendpoints))]
        exact .broken n hop hop Iff.rfl
      | succ k =>
        rw [next_of_ok w rt hc (hrun.trans (run_retry_succ hendpoints))]
        exact .broken n hop hop (whole_begun_iff _)
    | aborted n =>
      rw [next_of_ok w rt hc hrun]
      exact .broken n hop hop Iff.rfl

theorem run_sendNext (c : Client) :
    sendNext c = .ok () (if c.txQueue ≠ [] then c.begun else { c with txPending := false }) := by
  simp only [sendNext, run_get_bind]
  split
  · exact run_beginConnect c
  · rfl

theorem move_read (hc : c.ended = false) (now : ℤ) (throws : WorkPackage → Bool) (outcome : Received) :
    Move rt c (.read now throws outcome) (c.next w rt (.read now throws outcome)) := by
  cases hop : c.readOp with
  | false => exact .nothing w rt hc rfl hop (run_complete_of_not hop)
  | true =>
    have hrun : act w rt (.read now throws outcome) c = handleRead rt now throws outcome { c with readOp := false } :=
      run_complete hop
    cases outcome with
    | failed =>
      rw [next_of_ok w rt hc hrun]
      exact .closing rt rfl rfl Iff.rfl
    | aborted =>
      rw [next_of_ok w rt hc hrun]
      exact .aborted hop rfl rfl (.inr ⟨hop, rfl⟩)
    | response rxMessage =>
      by_cases hempty : rxMessage = []
      · subst hempty
        rw [next_of_ok w rt hc hrun]
        exact .closing rt rfl rfl Iff.rfl
      rw [handleRead_eq rt now throws hempty] at hrun
      cases hbodies : bodies rxMessage with
      | none =>
        rw [hbodies] at hrun
        rw [next_of_ok w rt hc hrun]
        exact .closing rt rfl rfl Iff.rfl
      | some lines =>
        rw [hbodies, Option.elim_some] at hrun
        have haside : Aside { c with readOp := false }
            (final (forM lines (processBody rt now throws)) { c with readOp := false }) :=
          Preserves.final inferInstance ⟨rfl, rfl, rfl⟩
        cases hbody : forM lines (processBody rt now throws) { c with readOp := false } with
        | ok u c₁ =>
          rw [final, hbody] at haside
          rw [run_bind_of_ok hbody, run_sendNext] at hrun
          rw [next_of_ok w rt hc hrun]
          exact .answered c₁ rfl rfl hop haside.sender (haside.ended.trans hc) haside.tries rfl
        | error crash c₁ =>
          rw [final, hbody] at haside
          rw [run_bind_of_error hbody] at hrun
          rw [next_of_error w rt hc hrun]
          have hwhole : c₁.sender.Whole ↔ c.sender.Whole := by
            rw [haside.sender]
            rfl
          have hqueue : c₁.txQueue = c.txQueue := congrArg Sender.waiting haside.sender
          exact .finished rfl rfl rfl hwhole fun _ hline => hqueue ▸ hline

/-- **Every event is one of the moves.** -/
theorem next_move (hc : c.ended = false) (e : Event) : Move rt c e (c.next w rt e) := by
  cases e with
  | connect => exact move_connect w rt hc
  | disconnect =>
    rw [next_of_ok w rt hc rfl]
    exact .closing rt rfl rfl Iff.rfl
  | submitHashrate rate id => exact move_submitHashrate w rt hc rate id
  | submitSolution solution => exact move_submitSolution w rt hc solution
  | resolved endpoints => exact move_resolved w rt hc endpoints
  | connected now outcome => exact move_connected w rt hc now outcome
  | written outcome => exact move_written w rt hc outcome
  | read now throws outcome => exact move_read w rt hc now throws outcome
  | elapse =>
    cases hop : c.timer with
    | false => exact .nothing w rt hc rfl rfl (run_complete_of_not hop)
    | true =>
      have hact : act w rt .elapse c = .ok () { c with timer := false, elapsed := c.elapsed + 1 } := run_complete hop
      rw [next_of_ok w rt hc hact]
      exact .quiet rfl rfl rfl hc le_rfl
  | expired now => exact move_expired w rt hc now

end Steps

section Runs

variable {w : Writer} {rt : Runtime} {c c' : Client} {e : Event} {S : Prop}

/-- The invariant of a run.  `S` tells whether the client may be stalled. -/
structure Client.Orderly (S : Prop) (c : Client) : Prop where
  whole : c.sender.Whole
  texts : ∀ line ∈ c.txQueue, line ≠ []
  live : c.ended = false → ∃ p, c.sender.Live p ∧ (p = .stalled → S)

/-- The condition on one event: what it hands to `send` finds a node free, and it does not break off
a write. -/
def Client.Meets (c : Client) (e : Event) : Prop :=
  c.ended = true ∨ (c.sends e = true → c.txQueue.length < c.nodes) ∧ c.breaks e = false

/-- The invariant is about the sender. -/
theorem Client.Orderly.congr (hc : c.Orderly S) (hended : c.ended = false) (hsame : c'.sender = c.sender) :
    c'.Orderly S := by
  have hqueue : c'.txQueue = c.txQueue := congrArg Sender.waiting hsame
  refine ⟨hsame ▸ hc.whole, ?_, fun _ => hsame ▸ hc.live hended⟩
  rw [hqueue]
  exact hc.texts

theorem Client.Orderly.finished (hc : c.sender.Whole) (htexts : ∀ line ∈ c.txQueue, line ≠ []) (hend : c.ended = true) :
    c.Orderly S :=
  ⟨hc, htexts, fun hlive => absurd (hend.symm.trans hlive) (by decide)⟩

/-- A stalled client that has something to send connects or ends. -/
theorem Client.Orderly.begun (hc : c.sender.Whole) (htexts : ∀ line ∈ c.txQueue, line ≠ [])
    (hlive : Sender.Live { c.sender with connecting := true } .connecting) : c.begun.Orderly S := by
  unfold Client.begun
  split
  · exact ⟨hc, htexts, fun _ => ⟨.connecting, hlive, fun h => by cases h⟩⟩
  · exact .finished (Sender.whole_close_iff.2 hc) (fun _ h => absurd h List.not_mem_nil) rfl

theorem whole_posted_iff (c : Client) (line : List Char) :
    (c.posted line).sender.Whole ↔ (c.sender.push line).Whole := by
  unfold Client.posted
  split
  · exact Iff.rfl
  · exact whole_begun_iff _

theorem push_texts {line : List Char} (htexts : ∀ l ∈ c.txQueue, l ≠ []) (hline : line ≠ []) :
    ∀ l ∈ (c.push line).txQueue, l ≠ [] := by
  intro l hmem
  unfold Client.push at hmem
  dsimp only at hmem
  split at hmem
  · obtain hold | hnew := List.mem_append.1 hmem
    · exact htexts l hold
    · rw [List.mem_singleton.1 hnew]
      exact hline
  · exact htexts l hmem

theorem Client.Orderly.posted {line : List Char} (hc : c.Orderly S) (hended : c.ended = false)
    (hroom : c.txQueue.length < c.nodes) (hline : line ≠ []) : (c.posted line).Orderly S := by
  have hwhole : (c.sender.push line).Whole := (Sender.whole_push_iff hc.whole).2 hroom
  have htexts := push_texts hc.texts hline
  obtain ⟨p, hp, hS⟩ := hc.live hended
  have hbusy : c.txPending = decide (p ≠ .idle) := hp.busy
  unfold Client.posted
  by_cases hidle : p = .idle
  · subst hidle
    rw [hbusy]
    exact .begun hwhole htexts (hp.push_start hroom)
  · rw [hbusy, decide_eq_true hidle, if_pos rfl]
    exact ⟨hwhole, htexts, fun _ => ⟨p, hp.push hidle, hS⟩⟩

theorem openSession_sender (now : ℤ) (c : Client) : (openSession now c).sender = c.sender := by
  unfold openSession
  split <;> rfl

/-- The first line of the queue is taken. -/
theorem writeFirst_sender {line : List Char} {rest : List (List Char)} (now : ℤ) (hqueue : c.txQueue = line :: rest)
    (hline : line ≠ []) : (writeFirst rt now c).sender = c.sender.take line rest := by
  have hpop : popLine (line :: rest) = (some line, rest) := if_pos hline
  have htake : (line :: rest).take ((line :: rest).length - rest.length) = [line] := by
    rw [List.length_cons, Nat.add_sub_cancel_left]
    rfl
  simp only [writeFirst, hqueue, hpop, htake, reduceCtorEq, if_false]
  rfl

/-- The connection is taken up: the first request is written on it. -/
theorem connected_sender (rt : Runtime) (hc : c.Orderly S) (hended : c.ended = false) (hop : c.connectOp = true) (now : ℤ) :
    ∃ line rest, c.txQueue = line :: rest ∧ line ≠ [] ∧ Sender.Live { c.sender with connecting := false } .stalled ∧
      (writeFirst rt now (openSession now { c with connectOp := false })).sender =
        Sender.take { c.sender with connecting := false } line rest := by
  obtain ⟨p, hp, -⟩ := hc.live hended
  obtain rfl := hp.eq_connecting hop
  obtain ⟨line, rest, hqueue⟩ := List.exists_cons_of_ne_nil (hp.first rfl)
  have hline : line ≠ [] := hc.texts line (by
    rw [show c.txQueue = line :: rest from hqueue]
    exact List.mem_cons_self)
  have hopen := openSession_sender now { c with connectOp := false }
  have hqueue' : (openSession now { c with connectOp := false }).txQueue = line :: rest :=
    (congrArg Sender.waiting hopen).trans hqueue
  refine ⟨line, rest, hqueue, hline, hp.connected, ?_⟩
  rw [writeFirst_sender now hqueue' hline, hopen]
  rfl

/-- **One step keeps the invariant** if it meets the condition. -/
theorem Client.Orderly.next (hc : c.Orderly S) (hmeets : c.Meets e) (haborts : c.aborts e = true → S) :
    (c.next w rt e).Orderly S := by
  cases hended : c.ended with
  | true =>
    have hsame : c.next w rt e = c := if_pos hended
    rwa [hsame]
  | false =>
    obtain ⟨hroom, hwrites⟩ := hmeets.resolve_left (by simp [hended])
    obtain ⟨p, hp, hS⟩ := hc.live hended
    cases next_move w rt hended e with
    | quiet hsends hcompletes hsame hlive htries => exact hc.congr hended hsame
    | posted c₁ line h hline hsends hcompletes hsame hlive htries =>
      have hqueue : c₁.txQueue = c.txQueue := congrArg Sender.waiting hsame
      have hnodes : c₁.nodes = c.nodes := congrArg Sender.capacity hsame
      have hroom₁ : c₁.txQueue.length < c₁.nodes := by
        rw [hqueue, hnodes]
        exact hroom hsends
      rw [h]
      exact (hc.congr hended hsame).posted hlive hroom₁ hline
    | finished hsends hbreaks hend hwhole htexts =>
      exact .finished (hwhole.2 hc.whole) (fun l hl => hc.texts l (htexts hl)) hend
    | connected now he hop h =>
      obtain ⟨line, rest, hfirst, hline, hstalled, hsender⟩ := connected_sender rt hc hended hop now
      rw [h]
      refine ⟨?_, fun l hl => ?_, fun _ => ⟨.writing, ?_, fun hwriting => by cases hwriting⟩⟩
      · rw [hsender]
        exact Sender.Whole.take hc.whole hstalled hfirst
      · have hrest : (writeFirst rt now (openSession now { c with connectOp := false })).txQueue = rest :=
          congrArg Sender.waiting hsender
        rw [hrest] at hl
        exact hc.texts l (hfirst ▸ List.mem_cons_of_mem _ hl)
      · rw [hsender]
        exact hstalled.take (post_ne_nil _ _ _)
    | retried now n he hop hendpoints h =>
      obtain rfl := hp.eq_connecting hop
      rw [h]
      exact .begun hc.whole hc.texts (hp.connected.reconnect (hp.first rfl))
    | aborted ha hbreaks hsends h =>
      obtain ⟨hop, h⟩ | ⟨hop, h⟩ := h
      · obtain rfl := hp.eq_connecting hop
        rw [h]
        exact ⟨hc.whole, hc.texts, fun _ => ⟨.stalled, hp.connected, fun _ => haborts ha⟩⟩
      · obtain rfl := hp.eq_reading hop
        rw [h]
        exact ⟨hc.whole, hc.texts, fun _ => ⟨.stalled, hp.answered, fun _ => haborts ha⟩⟩
    | written he hop h =>
      obtain rfl := hp.eq_writing hop
      rw [h]
      exact ⟨hc.whole, hc.texts, fun _ => ⟨.reading, hp.written, fun hreading => by cases hreading⟩⟩
    | broken n hbreaks hop h => exact absurd (hbreaks.symm.trans hwrites) (by decide)
    | answered c₁ he hbreaks hop hsame hlive htries h =>
      obtain rfl := hp.eq_reading hop
      have hstalled : c₁.sender.Live .stalled := hsame ▸ hp.answered
      have hwhole : c₁.sender.Whole := hsame ▸ hc.whole
      have htexts : ∀ l ∈ c₁.txQueue, l ≠ [] := by
        rw [show c₁.txQueue = c.txQueue from congrArg Sender.waiting hsame]
        exact hc.texts
      rw [h]
      split
      · rename_i hwaiting
        exact .begun hwhole htexts (hstalled.reconnect hwaiting)
      · rename_i hwaiting
        exact ⟨hwhole, htexts, fun _ => ⟨.idle, hstalled.rest (not_not.1 hwaiting), fun hidle => by cases hidle⟩⟩

theorem breaks_of_completes (h : c.completes e = false) : c.breaks e = false := by
  cases e with
  | written outcome =>
    cases outcome with
    | ok => rfl
    | failed n => exact h
    | aborted n => exact h
  | _ => rfl

/-- A step that does not meet the condition loses or mangles a request. -/
theorem not_whole_next (hc : c.Orderly S) (hmeets : ¬ c.Meets e) : ¬ (c.next w rt e).sender.Whole := by
  obtain ⟨hended, hmeets⟩ := not_or.1 hmeets
  rw [Bool.not_eq_true] at hended
  obtain ⟨p, hp, -⟩ := hc.live hended
  -- The moves that neither hand over a request nor break off a write meet the condition.
  have hother (hsends : c.sends e = false) (hbreaks : c.breaks e = false) : False := hmeets ⟨by simp [hsends], hbreaks⟩
  cases next_move w rt hended e with
  | quiet hsends hcompletes => exact (hother hsends (breaks_of_completes hcompletes)).elim
  | posted c₁ line h hline hsends hcompletes hsame hlive htries =>
    rw [h, whole_posted_iff, Sender.whole_push_iff (hsame ▸ hc.whole), hsame]
    exact fun hroom => hmeets ⟨fun _ => hroom, breaks_of_completes hcompletes⟩
  | finished hsends hbreaks => exact (hother hsends hbreaks).elim
  | connected now he hop h =>
    subst he
    exact (hother rfl rfl).elim
  | retried now n he hop hendpoints h =>
    subst he
    exact (hother rfl rfl).elim
  | aborted ha hbreaks hsends h => exact (hother hsends hbreaks).elim
  | written he hop h =>
    subst he
    exact (hother rfl rfl).elim
  | broken n hbreaks hop h =>
    obtain rfl := hp.eq_writing hop
    have hlength : c.request.length ≠ 0 := fun h => (hp.carried rfl).1 (List.length_eq_zero_iff.1 h)
    rw [h]
    exact Sender.not_whole_breakOff hc.whole hp (show min n (c.request.length - 1) < c.request.length by omega)
  | answered c₁ hsends hbreaks => exact (hother hsends hbreaks).elim

/-- What is to be done before `goal` requests are dequeued. -/
def Client.rank (goal : ℕ) (c : Client) : ℕ ×ₗ ℕ ×ₗ ℕ ×ₗ ℕ :=
  toLex (goal - c.dequeued.length, toLex (if c.writeOp then 2 else if c.readOp then 1 else 0, c.tries))

theorem rank_lt_of_dequeued {goal : ℕ} (hgoal : c.dequeued.length < goal)
    (h : c.dequeued.length < c'.dequeued.length) : c'.rank goal < c.rank goal :=
  Prod.Lex.toLex_lt_toLex.2 (.inl (show goal - c'.dequeued.length < goal - c.dequeued.length by omega))

/-- Nothing is dequeued, and the phase comes first. -/
theorem rank_lt_of_phase {goal : ℕ} (hdequeued : c'.dequeued = c.dequeued)
    (h : (if c'.writeOp then 2 else if c'.readOp then 1 else 0) < if c.writeOp then 2 else if c.readOp then 1 else 0) :
    c'.rank goal < c.rank goal := by
  refine Prod.Lex.toLex_lt_toLex.2 (.inr ⟨?_, Prod.Lex.toLex_lt_toLex.2 (.inl h)⟩)
  rw [hdequeued]

theorem rank_le_of_sender {goal : ℕ} (hdequeued : c'.dequeued = c.dequeued) (hwrite : c'.writeOp = c.writeOp)
    (hread : c'.readOp = c.readOp) (htries : c'.tries ≤ c.tries) : c'.rank goal ≤ c.rank goal := by
  unfold Client.rank
  rw [hdequeued, hwrite, hread]
  exact Prod.Lex.toLex_le_toLex.2 (.inr ⟨rfl, Prod.Lex.toLex_le_toLex.2 (.inr ⟨rfl, htries⟩)⟩)

/-- A client that still has to dequeue a request handed to it is busy with an operation. -/
theorem Client.Orderly.busy (hc : c.Orderly False) (hended : c.ended = false) (hgoal : c.dequeued.length < c.sent.length) :
    c.txQueue ≠ [] ∧ c.txPending = true ∧ (c.connectOp = true ∨ c.writeOp = true ∨ c.readOp = true) := by
  obtain ⟨p, hp, hstalled⟩ := hc.live hended
  have hwaiting : c.txQueue ≠ [] := by
    intro hnone
    have hsent : c.sent = c.dequeued ++ c.discarded ++ c.txQueue := hc.whole.1
    have hdiscarded : c.discarded = [] := hp.discarded
    rw [hsent, hdiscarded, hnone, List.append_nil, List.append_nil] at hgoal
    exact absurd hgoal (lt_irrefl _)
  refine ⟨hwaiting, ?_⟩
  have hbusy : c.txPending = decide (p ≠ .idle) := hp.busy
  cases p with
  | idle => exact absurd (hp.idle rfl) hwaiting
  | connecting => exact ⟨hbusy, .inl hp.connecting⟩
  | writing => exact ⟨hbusy, .inr (.inl hp.writing)⟩
  | reading => exact ⟨hbusy, .inr (.inr hp.reading)⟩
  | stalled => exact (hstalled rfl).elim

/-- **One step comes closer** to the dequeuing of what was handed over, or the client ends. -/
theorem Client.Orderly.advances (w : Writer) (rt : Runtime) (hc : c.Orderly False) (hmeets : c.Meets e) (haborts : c.aborts e = false)
    (hended : c.ended = false) {goal : ℕ} (hgoal : c.dequeued.length < goal) (hsent : goal ≤ c.sent.length) :
    (c.next w rt e).ended = true ∨ (c.next w rt e).rank goal < c.rank goal ∨
      (c.next w rt e).rank goal ≤ c.rank goal ∧ c.completes e = false := by
  obtain ⟨-, hwrites⟩ := hmeets.resolve_left (by simp [hended])
  obtain ⟨hwaiting, hpending, -⟩ := hc.busy hended (hgoal.trans_le hsent)
  obtain ⟨p, hp, -⟩ := hc.live hended
  cases next_move w rt hended e with
  | quiet hsends hcompletes hsame hlive htries =>
    exact .inr (.inr ⟨rank_le_of_sender (congrArg Sender.dequeued hsame) (congrArg Sender.writing hsame)
      (congrArg Sender.reading hsame) htries, hcompletes⟩)
  | posted c₁ line h hline hsends hcompletes hsame hlive htries =>
    have hpending₁ : c₁.txPending = true := (congrArg Sender.busy hsame).trans hpending
    rw [h, Client.posted, if_pos hpending₁]
    exact .inr (.inr ⟨rank_le_of_sender (congrArg Sender.dequeued hsame) (congrArg Sender.writing hsame)
      (congrArg Sender.reading hsame) htries, hcompletes⟩)
  | finished hsends hbreaks hend => exact .inl hend
  | connected now he hop h =>
    obtain ⟨line, rest, -, -, -, hsender⟩ := connected_sender rt hc hended hop now
    refine .inr (.inl (rank_lt_of_dequeued hgoal ?_))
    have hdequeued : (c.next w rt e).dequeued = c.dequeued ++ [line] := by
      rw [h]
      exact congrArg Sender.dequeued hsender
    rw [hdequeued, List.length_append]
    exact Nat.lt_succ_self _
  | retried now n he hop hendpoints h =>
    rw [h]
    unfold Client.begun
    split
    · refine .inr (.inl (Prod.Lex.toLex_lt_toLex.2 (.inr ⟨rfl, Prod.Lex.toLex_lt_toLex.2 (.inr ⟨rfl, ?_⟩)⟩)))
      refine Prod.Lex.toLex_lt_toLex.2 (.inr ⟨rfl, ?_⟩)
      rw [hendpoints]
      exact Nat.lt_succ_self n
    · exact .inl rfl
  | aborted ha => exact absurd (ha.symm.trans haborts) (by decide)
  | written he hop h =>
    rw [h]
    exact .inr (.inl (rank_lt_of_phase rfl (by simp [hop])))
  | broken n hbreaks => exact absurd (hbreaks.symm.trans hwrites) (by decide)
  | answered c₁ he hbreaks hop hsame hlive htries h =>
    obtain rfl := hp.eq_reading hop
    have hwaiting₁ : c₁.txQueue ≠ [] := by
      rwa [show c₁.txQueue = c.txQueue from congrArg Sender.waiting hsame]
    have hwrite : c.writeOp = false := hp.writing
    have hwrite₁ : c₁.writeOp = false := (congrArg Sender.writing hsame).trans hwrite
    have hread₁ : c₁.readOp = false := congrArg Sender.reading hsame
    rw [h, if_pos hwaiting₁]
    unfold Client.begun
    split
    · exact .inr (.inl (rank_lt_of_phase (congrArg Sender.dequeued hsame) (by simp [hwrite, hwrite₁, hread₁, hop])))
    · exact .inl rfl

/-- What was handed over stays on record. -/
theorem sent_prefix_next (w : Writer) (rt : Runtime) (hmeets : c.Meets e) (hc : c.Orderly S) :
    (c.next w rt e).ended = true ∨ c.sent <+: (c.next w rt e).sent := by
  cases hended : c.ended with
  | true =>
    have hsame : c.next w rt e = c := if_pos hended
    exact .inl (by rwa [hsame])
  | false =>
    obtain ⟨-, hwrites⟩ := hmeets.resolve_left (by simp [hended])
    have hbegun (c₁ : Client) : c₁.begun.sent = c₁.sent := by
      unfold Client.begun
      split <;> rfl
    cases next_move w rt hended e with
    | quiet hsends hcompletes hsame =>
      have hsent : (c.next w rt e).sent = c.sent := congrArg Sender.sent hsame
      exact .inr (hsent ▸ List.prefix_refl _)
    | posted c₁ line h hline hsends hcompletes hsame =>
      have hsent : (c.next w rt e).sent = c.sent ++ [line] := by
        rw [h, ← show c₁.sent = c.sent from congrArg Sender.sent hsame]
        unfold Client.posted
        split
        · rfl
        · exact hbegun _
      exact .inr (hsent ▸ List.prefix_append _ _)
    | finished hsends hbreaks hend => exact .inl hend
    | connected now he hop h =>
      obtain ⟨line, rest, -, -, -, hsender⟩ := connected_sender rt hc hended hop now
      have hsent : (c.next w rt e).sent = c.sent := by
        rw [h]
        exact congrArg Sender.sent hsender
      exact .inr (hsent ▸ List.prefix_refl _)
    | retried now n he hop hendpoints h => exact .inr (h ▸ (hbegun _).symm ▸ List.prefix_refl _)
    | aborted ha hbreaks hsends h =>
      obtain ⟨-, h⟩ | ⟨-, h⟩ := h
      · exact .inr (h ▸ List.prefix_refl _)
      · exact .inr (h ▸ List.prefix_refl _)
    | written he hop h => exact .inr (h ▸ List.prefix_refl _)
    | broken n hbreaks => exact absurd (hbreaks.symm.trans hwrites) (by decide)
    | answered c₁ he hbreaks hop hsame hlive htries h =>
      have hsent : (c.next w rt e).sent = c.sent := by
        rw [h, ← show c₁.sent = c.sent from congrArg Sender.sent hsame]
        split
        · exact hbegun c₁
        · rfl
      exact .inr (hsent ▸ List.prefix_refl _)

end Runs

section Endless

variable (w : Writer) (rt : Runtime)

/-- What a client is set up with, and the number of nodes of its queue. -/
structure Setup where
  host : List Char
  path : List Char
  isName : Bool
  worktimeout : ℤ
  solutionSubmittedMaxId : BitVec 32
  nodes : ℕ

/-- The client before its first event. -/
def Setup.client (s : Setup) : Client :=
  { Client.new s.host s.path s.isName s.worktimeout s.solutionSubmittedMaxId with nodes := s.nodes }

/-- No request is lost or doubled, and each connection carries one request, whole. -/
def Client.Delivers (c : Client) : Prop :=
  c.sent = c.dequeued ++ c.discarded ++ c.txQueue ∧ c.wire = c.dequeued.map (post c.host c.path)

/-- The client in the course of the events `ev`. -/
def states (c : Client) (ev : ℕ → Event) : ℕ → Client := trace (Client.next w rt) c ev

/-- Every operation that is under way ends some time, or the client does. -/
def OperationsEnd (t : ℕ → Client) (ev : ℕ → Event) : Prop :=
  ∀ n, (t n).connectOp = true ∨ (t n).writeOp = true ∨ (t n).readOp = true →
    ∃ m, n ≤ m ∧ ((t m).ended = true ∨ (t m).completes (ev m) = true)

/-- What has been handed to `send` is all dequeued some time, or the client has ended. -/
def AllDequeued (t : ℕ → Client) : Prop :=
  ∀ n, ∃ m, n ≤ m ∧ ((t m).ended = true ∨ (t n).sent <+: (t m).dequeued)

variable {w rt} {c : Client} {ev : ℕ → Event}

theorem Setup.orderly (S : Prop) (s : Setup) : s.client.Orderly S where
  whole := ⟨rfl, rfl⟩
  texts l hl := absurd hl List.not_mem_nil
  live _ := ⟨.idle, ⟨rfl, rfl, rfl, rfl, rfl, fun _ => rfl, (by intro h; cases h), fun _ => rfl, by intro h; cases h⟩,
    by intro h; cases h⟩

/-- **Safety.** -/
theorem delivers_iff_meets (hc : c.Orderly True) :
    (∀ n, (states w rt c ev n).Delivers) ↔ ∀ n, (states w rt c ev n).Meets (ev n) := by
  have hsteps : (∀ n, ((states w rt c ev n).next w rt (ev n)).sender.Whole) ↔
      ∀ n, (states w rt c ev n).Meets (ev n) := by
    refine forall_trace_iff (P := fun c e => (c.next w rt e).sender.Whole) hc ?_ ?_
    · intro c e hc
      refine ⟨fun hwhole => ?_, fun hmeets => (hc.next hmeets fun _ => trivial).whole⟩
      by_contra hmeets
      exact not_whole_next hc hmeets hwhole
    · exact fun c e hc hmeets => hc.next hmeets fun _ => trivial
  rw [← hsteps]
  constructor
  · exact fun h n => h (n + 1)
  · intro h n
    cases n with
    | zero => exact hc.whole
    | succ n => exact h n

/-- A run with `goal` requests on record dequeues as many. -/
theorem exists_dequeued {t : ℕ → Client} {goal : ℕ} (hnext : ∀ k, t (k + 1) = (t k).next w rt (ev k))
    (horderly : ∀ k, (t k).Orderly False) (hmeets : ∀ k, (t k).Meets (ev k))
    (haborts : ∀ k, (t k).aborts (ev k) = false) (hend : OperationsEnd t ev)
    (hsent : ∀ k, (t k).ended = true ∨ goal ≤ (t k).sent.length) :
    ∃ k, (t k).ended = true ∨ goal ≤ (t k).dequeued.length := by
  -- Before that the client lives, and some request on record is not dequeued yet.
  have hopen (k : ℕ) (hgoal : ¬ ((t k).ended = true ∨ goal ≤ (t k).dequeued.length)) :
      (t k).ended = false ∧ (t k).dequeued.length < goal ∧ goal ≤ (t k).sent.length := by
    obtain ⟨hended, hlength⟩ := not_or.1 hgoal
    exact ⟨Bool.eq_false_iff.2 hended, not_le.1 hlength, (hsent k).resolve_left hended⟩
  have hstep (k : ℕ) (hgoal : ¬ ((t k).ended = true ∨ goal ≤ (t k).dequeued.length)) :
      ((t (k + 1)).ended = true ∨ goal ≤ (t (k + 1)).dequeued.length) ∨ (t (k + 1)).rank goal < (t k).rank goal ∨
        (t (k + 1)).rank goal = (t k).rank goal ∧ ¬ (t k).completes (ev k) = true := by
    obtain ⟨hended, hlength, hlater⟩ := hopen k hgoal
    have hadvances := (horderly k).advances w rt (hmeets k) (haborts k) hended hlength hlater
    rw [← hnext k] at hadvances
    obtain hover | hlt | ⟨hle, hcompletes⟩ := hadvances
    · exact .inl (.inl hover)
    · exact .inr (.inl hlt)
    · exact .inr (hle.lt_or_eq.imp_right fun heq => ⟨heq, Bool.eq_false_iff.1 hcompletes⟩)
  have hfair (k : ℕ) (hgoal : ¬ ((t k).ended = true ∨ goal ≤ (t k).dequeued.length)) :
      ∃ m, k ≤ m ∧ (((t m).ended = true ∨ goal ≤ (t m).dequeued.length) ∨ (t m).completes (ev m) = true) := by
    obtain ⟨hended, hlength, hlater⟩ := hopen k hgoal
    obtain ⟨-, -, hbusy⟩ := (horderly k).busy hended (hlength.trans_le hlater)
    obtain ⟨m, hm, hover | hcompletes⟩ := hend k hbusy
    · exact ⟨m, hm, .inl (.inl hover)⟩
    · exact ⟨m, hm, .inr hcompletes⟩
  obtain ⟨k, -, hk⟩ := eventually_of_rank (Client.rank goal) (fun c => c.ended = true ∨ goal ≤ c.dequeued.length)
    (fun c e => c.completes e = true) hstep hfair 0
  exact ⟨k, hk⟩

/-- **Liveness.** -/
theorem allDequeued (hc : c.Orderly False) (hmeets : ∀ n, (states w rt c ev n).Meets (ev n))
    (haborts : ∀ n, (states w rt c ev n).aborts (ev n) = false) (hend : OperationsEnd (states w rt c ev) ev) :
    AllDequeued (states w rt c ev) := by
  have horderly (n : ℕ) : (states w rt c ev n).Orderly False := by
    refine trace_inv (P := fun c e => c.Meets e ∧ c.aborts e = false) hc ?_ (fun n => ⟨hmeets n, haborts n⟩) n
    rintro c e hc ⟨hmeets, haborts⟩
    exact hc.next hmeets fun h => absurd (h.symm.trans haborts) (by decide)
  intro n
  -- What was handed over by the time `n` stays on record until the client ends.
  have hrecord (k : ℕ) : (states w rt c ev (n + k)).ended = true ∨
      (states w rt c ev n).sent <+: (states w rt c ev (n + k)).sent := by
    induction k with
    | zero => exact .inr (List.prefix_refl _)
    | succ k ih =>
      obtain hended | hstep := sent_prefix_next w rt (hmeets (n + k)) (horderly (n + k))
      · exact .inl hended
      · obtain hended | hbefore := ih
        · have hsame : states w rt c ev (n + k + 1) = states w rt c ev (n + k) := if_pos hended
          exact .inl (by rwa [← Nat.add_assoc, hsame])
        · exact .inr (hbefore.trans hstep)
  have hend' : OperationsEnd (fun k => states w rt c ev (n + k)) fun k => ev (n + k) := by
    intro k hbusy
    obtain ⟨m, hm, h⟩ := hend (n + k) hbusy
    obtain ⟨j, rfl⟩ := Nat.exists_eq_add_of_le hm
    refine ⟨k + j, Nat.le_add_right k j, ?_⟩
    rwa [Nat.add_assoc] at h
  obtain ⟨k, hk⟩ := exists_dequeued (t := fun k => states w rt c ev (n + k)) (fun _ => rfl) (fun k => horderly (n + k))
    (fun k => hmeets (n + k)) (fun k => haborts (n + k)) hend' fun k => (hrecord k).imp_right List.IsPrefix.length_le
  refine ⟨n + k, Nat.le_add_right n k, ?_⟩
  obtain hended | hbefore := hrecord k
  · exact .inl hended
  · refine hk.imp_right fun hlength => List.prefix_of_prefix_length_le hbefore ?_ hlength
    have hwhole : (states w rt c ev (n + k)).Delivers := (horderly (n + k)).whole
    rw [hwhole.1]
    exact (List.prefix_append _ _).trans (List.prefix_append _ _)

/-- **Getwork requests are delivered whole and once** along a run exactly when each finds a node free
and no write breaks off.  If moreover no connection attempt and no read is aborted and every operation
ends, they are all dequeued. -/
theorem requests_delivered (w : Writer) (rt : Runtime) (s : Setup) (ev : ℕ → Event) :
    ((∀ n, (states w rt s.client ev n).Delivers) ↔ ∀ n, (states w rt s.client ev n).Meets (ev n)) ∧
      ((∀ n, (states w rt s.client ev n).Meets (ev n)) → (∀ n, (states w rt s.client ev n).aborts (ev n) = false) →
        OperationsEnd (states w rt s.client ev) ev → AllDequeued (states w rt s.client ev)) :=
  ⟨delivers_iff_meets (s.orderly True), allDequeued (s.orderly False)⟩

end Endless

section Losses

/-- Polls and hashrates, by one letter each. -/
def letter : Json → List Char
  | .obj ((_, .int 1) :: _) => ['w']
  | _ => ['h']

theorem letter_ne_nil (v : Json) : letter v ≠ [] := by
  unfold letter
  split <;> exact List.cons_ne_nil _ _

def letterWriter : Writer where
  writeString := letter
  ne_nil := letter_ne_nil

def letterRuntime : Runtime where
  parse _ := none
  valueToString _ := []
  lexicalCast _ := []
  toDouble q := q
  projectNameWithVersion := []

/-- A pool given by its address, or by a name. -/
def letterSetup (isName : Bool) (nodes : ℕ) : Setup where
  host := "pool".toList
  path := []
  isName := isName
  worktimeout := 180
  solutionSubmittedMaxId := 0
  nodes := nodes

/-- A poll whose response is awaited when the client is told to disconnect. -/
def onePoll : ℕ → Event
  | 0 => .connect
  | 1 => .connected 0 .ok
  | 2 => .written .ok
  | _ => .disconnect

/-- The client of a pool with the address "pool" and room for one request. -/
def onePollState : ℕ → Client := states letterWriter letterRuntime (letterSetup false 1).client onePoll

theorem onePoll_ended (n : ℕ) : (onePollState (n + 4)).ended = true := by
  induction n with
  | zero => decide +kernel
  | succ n ih =>
    have hsame : onePollState (n + 4 + 1) = onePollState (n + 4) := if_pos ih
    rwa [Nat.add_right_comm, hsame]

theorem onePoll_meets (n : ℕ) : (onePollState n).Meets (onePoll n) := by
  rcases n with _ | _ | _ | _ | n
  · exact .inr (by decide +kernel)
  · exact .inr (by decide +kernel)
  · exact .inr (by decide +kernel)
  · exact .inr (by decide +kernel)
  · exact .inl (onePoll_ended n)

theorem onePoll_aborts (n : ℕ) : (onePollState n).aborts (onePoll n) = false := by
  rcases n with _ | _ | _ | n
  · rfl
  · rfl
  · rfl
  · rfl

/-- A poll is dequeued and written. -/
theorem requests_delivered_onePoll : (onePollState 3).dequeued = [['w']] ∧ AllDequeued onePollState :=
  ⟨by decide +kernel, (requests_delivered letterWriter letterRuntime (letterSetup false 1) onePoll).2 onePoll_meets
    onePoll_aborts fun n _ => ⟨n + 4, Nat.le_add_right n 4, .inl (onePoll_ended n)⟩⟩

/-- A name with two addresses: the write of the poll breaks off after four bytes while a hashrate
waits. -/
def brokenPoll : ℕ → Event
  | 0 => .connect
  | 1 => .resolved (some 2)
  | 2 => .connected 0 .ok
  | 3 => .submitHashrate 0 []
  | 4 => .written (.failed 4)
  | _ => .connected 0 .ok

/-- **Requests are lost and mixed.**  The queue of the code has no nodes, and the first poll is gone
at once.  With nodes, the connection after a broken write carries the rest of one request and all of
the next. -/
theorem requests_lost :
    ¬ (states letterWriter letterRuntime (letterSetup false 0).client onePoll 1).Delivers ∧
      (states letterWriter letterRuntime (letterSetup true 8).client brokenPoll 6).wire =
        ["POST".toList, (post "pool".toList [] ['w']).drop 4 ++ post "pool".toList [] ['h']] := by
  unfold Client.Delivers
  decide +kernel

end Losses

end Getwork
end EtcMiner
