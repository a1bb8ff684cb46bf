/-
# The requests that a stratum client writes

`EthStratumClient::send`, `sendSocketData` and `onSendSocketDataCompleted`
(`libpool/stratum/EthStratumClient.cpp`) with the bytes that `EtcMiner.Stratum.Link` leaves out:
the requests wait as text in `m_txQueue`, `sendSocketData` pops all of them into `m_sendBuffer`
and starts one write, and `m_txPending` says that a write is under way.  The functions are run
by the one thread of the `io_service`, so that a call is one step.

Along every run of calls and completions that overfills the queue nowhere, there is at most one
write at a time, the bytes are the requests in the order of the calls, and when there is no
write there is nothing left to send (`requests_transmitted_in_order`).  The flag and the queue
are those of `Link` (`send_mirrors`, `onSendSocketDataCompleted_mirrors`).
-/

import EtcMiner.Lib.AsyncWrite
import EtcMiner.Lib.Run
import EtcMiner.Stratum.Link

namespace EtcMiner
namespace Stratum

open Common Eth Lib

/-- What the client has to do with sending; `connected` is `isConnected()`. -/
structure Transmitter where
  connected : Bool := true
  txPending : Bool := false
  txQueue : List (List Char) := []
  sendBuffer : OutStream Char := {}
deriving DecidableEq

/-- The bytes of the requests: each is followed by a newline. -/
def wire (lines : List (List Char)) : List Char := (lines.map (· ++ ['\n'])).flatten

theorem wire_append (lines lines' : List (List Char)) : wire (lines ++ lines') = wire lines ++ wire lines' := by
  rw [wire, List.map_append, List.flatten_append]
  rfl

namespace Transmitter

/-- The buffer and the queue are emptied, and no write is pending. -/
def giveUp (t : Transmitter) : Transmitter :=
  { t with sendBuffer := { t.sendBuffer with buffer := [] }, txQueue := [], txPending := false }

/-- `sendSocketData()`. -/
def sendSocketData (t : Transmitter) : Transmitter :=
  if ¬ t.connected ∨ t.txQueue = [] then t.giveUp
  else { t with sendBuffer := (t.sendBuffer.put (wire t.txQueue)).asyncWrite, txQueue := [] }

/-- `m_txQueue.bounded_push(line)`. -/
def push (t : Transmitter) (line : List Char) : Transmitter :=
  { t with txQueue := if t.txQueue.length < Link.txCapacity then t.txQueue ++ [line] else t.txQueue }

/-- `send(jReq)`, from the text of the request on. -/
def send (t : Transmitter) (line : List Char) : Transmitter :=
  if (t.push line).txPending then t.push line
  else { t.push line with txPending := true }.sendSocketData

/-- `onSendSocketDataCompleted(ec)`. -/
def onSendSocketDataCompleted (t : Transmitter) (ec : Bool) : Transmitter :=
  if ec then t.giveUp
  else if t.txQueue = [] then { t with txPending := false }
  else t.sendSocketData

/-- What happens: a request is sent, or a write under way completes without an error. -/
inductive Event where
  | send (line : List Char)
  | completed (i : ℕ)

/-- The request that is sent. -/
def Event.line : Event → Option (List Char)
  | .send line => some line
  | .completed _ => none

/-- One step of a run. -/
def next (t : Transmitter) : Event → Transmitter
  | .send line => t.send line
  | .completed i =>
    if i < t.sendBuffer.writes.length then
      { t with sendBuffer := t.sendBuffer.complete i }.onSendSocketDataCompleted false
    else t

/-- The queue has room for what is sent. -/
def Room (t : Transmitter) : Event → Prop
  | .send _ => t.txQueue.length < Link.txCapacity
  | .completed _ => True

instance (t : Transmitter) (e : Event) : Decidable (t.Room e) := by
  unfold Room
  cases e <;> infer_instance

/-- No write is under way and nothing waits, or there is one write and the flag is set. -/
structure Orderly (t : Transmitter) (lines : List (List Char)) : Prop where
  connected : t.connected = true
  transmitted : t.sendBuffer.transmitted ++ wire t.txQueue = wire lines
  phase : t.sendBuffer.Idle ∧ t.txPending = false ∧ t.txQueue = [] ∨
    t.sendBuffer.Busy ∧ t.txPending = true

variable {t : Transmitter} {lines : List (List Char)} {line : List Char}

/-- What waits is written when the buffer is idle. -/
theorem orderly_sendSocketData (hconnected : t.connected = true) (hidle : t.sendBuffer.Idle)
    (hpending : t.txPending = true) (hqueue : t.txQueue ≠ [])
    (htransmitted : t.sendBuffer.transmitted ++ wire t.txQueue = wire lines) :
    t.sendSocketData.Orderly lines := by
  obtain ⟨hbusy, hwritten⟩ := hidle.asyncWrite (wire t.txQueue)
  have hguard : ¬ (¬ t.connected ∨ t.txQueue = []) := by simp [hconnected, hqueue]
  rw [sendSocketData, if_neg hguard]
  refine ⟨hconnected, ?_, .inr ⟨hbusy, hpending⟩⟩
  show (t.sendBuffer.put (wire t.txQueue)).asyncWrite.transmitted ++ [] = wire lines
  rw [hwritten, List.append_nil, htransmitted]

theorem Orderly.send (h : t.Orderly lines) (hroom : t.txQueue.length < Link.txCapacity) :
    (t.send line).Orderly (lines ++ [line]) := by
  have hpush : t.push line = { t with txQueue := t.txQueue ++ [line] } := by rw [push, if_pos hroom]
  have htransmitted : t.sendBuffer.transmitted ++ wire (t.txQueue ++ [line]) = wire (lines ++ [line]) := by
    rw [wire_append, wire_append, ← List.append_assoc, h.transmitted]
  rw [Transmitter.send, hpush]
  obtain ⟨hidle, hpending, -⟩ | ⟨hbusy, hpending⟩ := h.phase
  · rw [if_neg (by simp [hpending])]
    exact orderly_sendSocketData h.connected hidle rfl (by simp) htransmitted
  · rw [if_pos hpending]
    exact ⟨h.connected, htransmitted, .inr ⟨hbusy, hpending⟩⟩

theorem Orderly.completed (h : t.Orderly lines) (i : ℕ) : (t.next (.completed i)).Orderly lines := by
  unfold next
  dsimp only
  split_ifs with hi
  · obtain ⟨⟨hwrites, -⟩, -⟩ | ⟨hbusy, hpending⟩ := h.phase
    · simp [hwrites] at hi
    · -- the only write is write 0
      have hzero : i = 0 := by
        rw [hbusy, List.length_singleton] at hi
        omega
      subst hzero
      have hidle := hbusy.complete
      by_cases hqueue : t.txQueue = []
      · have hdone : ({ t with sendBuffer := t.sendBuffer.complete 0 } : Transmitter).onSendSocketDataCompleted false =
            { t with sendBuffer := t.sendBuffer.complete 0, txPending := false } := if_pos hqueue
        rw [hdone]
        exact ⟨h.connected, h.transmitted, .inl ⟨hidle, rfl, hqueue⟩⟩
      · have hmore : ({ t with sendBuffer := t.sendBuffer.complete 0 } : Transmitter).onSendSocketDataCompleted false =
            ({ t with sendBuffer := t.sendBuffer.complete 0 } : Transmitter).sendSocketData := if_neg hqueue
        rw [hmore]
        exact orderly_sendSocketData h.connected hidle hpending hqueue h.transmitted
  · exact h

theorem Orderly.next {done : List Event} (h : t.Orderly (done.filterMap Event.line)) (e : Event)
    (hroom : t.Room e) : (t.next e).Orderly ((done ++ [e]).filterMap Event.line) := by
  rw [List.filterMap_append]
  cases e with
  | send line => exact h.send hroom
  | completed i =>
    show (t.next (.completed i)).Orderly (done.filterMap Event.line ++ [])
    rw [List.append_nil]
    exact h.completed i

end Transmitter

open Transmitter in
/-- **Requests are written in order, each once, one write at a time**, while the client stays
connected and the queue has room for what is sent. -/
theorem requests_transmitted_in_order (es : List Transmitter.Event)
    (hroom : Along Transmitter.next Transmitter.Room {} es) :
    let t := run Transmitter.next {} es
    t.sendBuffer.writes.length ≤ 1 ∧
      t.sendBuffer.transmitted ++ wire t.txQueue = wire (es.filterMap Event.line) ∧
      (t.sendBuffer.writes = [] → t.txPending = false ∧ t.txQueue = []) := by
  have hinit : Orderly {} (([] : List Transmitter.Event).filterMap Event.line) :=
    ⟨rfl, rfl, .inl ⟨⟨rfl, rfl⟩, rfl, rfl⟩⟩
  have horderly : Orderly (run Transmitter.next {} es) (([] ++ es).filterMap Event.line) :=
    @Along.run_log _ _ _ _ _ (fun t done => Orderly t (done.filterMap Event.line)) _ hinit
      (fun _ _ e h hroom => h.next e hroom) es hroom
  refine ⟨?_, horderly.transmitted, fun hnone => ?_⟩
  · obtain ⟨⟨hwrites, -⟩, -⟩ | ⟨hbusy, -⟩ := horderly.phase
    · simp [hwrites]
    · rw [hbusy]
      exact Nat.le_refl 1
  · obtain ⟨-, hpending, hqueue⟩ | ⟨hbusy, -⟩ := horderly.phase
    · exact ⟨hpending, hqueue⟩
    · rw [hbusy] at hnone
      cases hnone

/-- Two requests that come while the first one is written leave in one write. -/
def pipelined : List Transmitter.Event :=
  [.send "one".toList, .send "two".toList, .send "three".toList, .completed 0, .completed 0, .send "four".toList]

theorem requests_transmitted_in_order_pipelined :
    (run Transmitter.next {} pipelined).sendBuffer.transmitted = "one\ntwo\nthree\nfour\n".toList := by
  obtain ⟨-, htransmitted, -⟩ := requests_transmitted_in_order pipelined (by decide)
  have hqueue : (run Transmitter.next {} pipelined).txQueue = [] := by decide
  rw [hqueue] at htransmitted
  exact htransmitted

section Mirror

/-- The transmitter is what the client has to do with sending, with the text of the requests. -/
structure Mirrors (writeString : Json → List Char) (t : Transmitter) (l : Link) : Prop where
  connected : t.connected = l.isConnected
  txPending : t.txPending = l.txPending
  txQueue : t.txQueue = l.txQueue.map writeString

variable {writeString : Json → List Char} {t : Transmitter} {l : Link}

theorem ends_useConn_bind {f : Unit → LinkM Unit} {Q : Unit → Link → Prop} {E : Crash → Link → Prop}
    (hconn : l.connSet = true) : Ends (Link.useConn false >>= f) l Q E ↔ Ends (f ()) l Q E := by
  unfold Link.useConn
  simp only [ends_bind, ends_get, hconn, if_true, ends_pure]

theorem sendSocketData_mirrors (h : Mirrors writeString t l) (hconn : l.connSet = true) :
    Ends Link.sendSocketData l (fun _ l' => Mirrors writeString t.sendSocketData l') fun _ _ => False := by
  have hguard : (¬ t.connected ∨ t.txQueue = []) ↔ (¬ l.isConnected ∨ l.txQueue = []) := by
    rw [h.connected, h.txQueue, List.map_eq_nil_iff]
  unfold Link.sendSocketData Transmitter.sendSocketData
  rw [ends_bind, ends_get]
  by_cases hstop : ¬ l.isConnected ∨ l.txQueue = []
  · rw [if_pos hstop, if_pos (hguard.2 hstop)]
    exact ⟨h.connected, rfl, rfl⟩
  · rw [if_neg hstop, if_neg (hguard.not.2 hstop)]
    rw [ends_useConn_bind hconn, ends_modify]
    exact ⟨h.connected, h.txPending, rfl⟩

/-- `send` of the client is `send` of the transmitter. -/
theorem send_mirrors (h : Mirrors writeString t l) (hconn : l.connSet = true) (jReq : Json) :
    Ends (Link.send jReq) l (fun _ l' => Mirrors writeString (t.send (writeString jReq)) l') fun _ _ => False := by
  have hpush : Mirrors writeString (t.push (writeString jReq)) { l with
      txQueue := if l.txQueue.length < Link.txCapacity then l.txQueue ++ [jReq] else l.txQueue } := by
    refine ⟨h.connected, h.txPending, ?_⟩
    unfold Transmitter.push
    rw [h.txQueue, List.length_map]
    split_ifs <;> simp
  unfold Link.send Transmitter.send
  rw [ends_bind, ends_modify, ends_bind, ends_get]
  by_cases hpending : l.txPending = true
  · rw [if_neg (not_not.2 hpending), if_pos (hpush.txPending.trans hpending)]
    exact hpush
  · rw [if_pos hpending, if_neg fun hp => hpending (hpush.txPending.symm.trans hp), ends_bind, ends_modify]
    exact sendSocketData_mirrors ⟨hpush.connected, rfl, hpush.txQueue⟩ hconn

/-- The handler of a write that completed without an error is that of the transmitter. -/
theorem onSendSocketDataCompleted_mirrors (h : Mirrors writeString t l) (hconn : l.connSet = true)
    (now : ℤ) (ssl : Bool) :
    Ends (Link.onSendSocketDataCompleted now false ssl) l
      (fun _ l' => Mirrors writeString (t.onSendSocketDataCompleted false) l') fun _ _ => False := by
  have htail (stamp : ℤ) : Ends (if l.txQueue = [] then modify fun l => { l with txPending := false }
      else Link.sendSocketData) { l with lastTxStamp := stamp }
      (fun _ l' => Mirrors writeString (t.onSendSocketDataCompleted false) l') fun _ _ => False := by
    have hqueue : t.txQueue = [] ↔ l.txQueue = [] := by rw [h.txQueue, List.map_eq_nil_iff]
    have hlink : Mirrors writeString t { l with lastTxStamp := stamp } := { h with }
    unfold Transmitter.onSendSocketDataCompleted
    by_cases hempty : l.txQueue = []
    · rw [if_pos hempty, if_neg Bool.false_ne_true, if_pos (hqueue.2 hempty), ends_modify]
      exact ⟨h.connected, rfl, h.txQueue⟩
    · rw [if_neg hempty, if_neg Bool.false_ne_true, if_neg (hqueue.not.2 hempty)]
      exact sendSocketData_mirrors hlink hconn
  unfold Link.onSendSocketDataCompleted
  rw [if_neg Bool.false_ne_true, ends_bind, ends_get]
  dsimp only
  by_cases hsession : l.client.session.isSome = true
  · simp only [if_pos hsession, ends_useConn_bind hconn]
    by_cases hmode : l.client.conn.stratumMode = 3
    · rw [if_pos hmode, ends_bind, ends_modify]
      exact htail now
    · rw [if_neg hmode]
      exact htail l.lastTxStamp
  · simp only [if_neg hsession]
    exact htail l.lastTxStamp

end Mirror

end Stratum
end EtcMiner
