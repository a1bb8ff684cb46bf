/-
# One request in flight

A sender keeps a bounded queue of requests and sends them one after the other, each over a
connection of its own: it connects, takes the first request off the queue and writes its encoding,
and reads the answer.  `busy` says that this is under way, so that a request handed over meanwhile
only joins the queue.

`Whole` is what it owes its callers: no request is lost or doubled, and every connection carries
the encoding of one request.  `Live p` is the invariant of a sender in the phase `p`; it says which
operation is under way, and that the buffer is empty outside of a write.  There is a lemma for each
move from one phase to the next.  A request that finds the queue full (`whole_push_iff`) and a write
that breaks off (`not_whole_breakOff`) are what a sender does not survive whole.
-/

import Mathlib.Data.List.Basic

namespace EtcMiner
namespace Lib

/-- A sender of requests in `α`, with what it was given, what it took off the queue, what it gave
up and what each connection carries. -/
structure Sender (α β : Type*) where
  encode : α → List β
  capacity : ℕ
  busy : Bool
  connecting : Bool
  writing : Bool
  reading : Bool
  waiting : List α
  buffer : List β
  sent : List α
  dequeued : List α
  discarded : List α
  wire : List (List β)

namespace Sender

/-- Where a sender stands.  A stalled one is busy with no operation under way. -/
inductive Phase where
  | idle
  | connecting
  | writing
  | reading
  | stalled
deriving DecidableEq

variable {α β : Type*} {v : Sender α β} {p : Phase} {a : α}

/-- A request is handed over; it joins the queue if there is room. -/
def push (v : Sender α β) (a : α) : Sender α β :=
  { v with
    waiting := if v.waiting.length < v.capacity then v.waiting ++ [a] else v.waiting
    sent := v.sent ++ [a] }

/-- A connection is begun. -/
def start (v : Sender α β) : Sender α β := { v with busy := true, connecting := true }

/-- Everything is given up. -/
def close (v : Sender α β) : Sender α β :=
  { v with
    busy := false
    waiting := []
    buffer := []
    discarded := v.discarded ++ v.waiting }

/-- The request `a` is taken off the queue and written behind what the buffer holds. -/
def take (v : Sender α β) (a : α) (rest : List α) : Sender α β :=
  { v with
    writing := true
    waiting := rest
    buffer := v.buffer ++ v.encode a
    dequeued := v.dequeued ++ [a]
    wire := v.wire ++ [v.buffer ++ v.encode a] }

/-- The write ends after `k` elements. -/
def breakOff (v : Sender α β) (k : ℕ) : Sender α β :=
  { v with
    buffer := v.buffer.drop k
    wire := v.wire.dropLast ++ [v.buffer.take k] }

/-- Requests are dequeued in order unless they wait or are given up, and each connection carries
the encoding of one of them. -/
def Whole (v : Sender α β) : Prop :=
  v.sent = v.dequeued ++ v.discarded ++ v.waiting ∧ v.wire = v.dequeued.map v.encode

/-- The invariant of a sender in the phase `p`. -/
structure Live (v : Sender α β) (p : Phase) : Prop where
  discarded : v.discarded = []
  busy : v.busy = decide (p ≠ .idle)
  connecting : v.connecting = decide (p = .connecting)
  writing : v.writing = decide (p = .writing)
  reading : v.reading = decide (p = .reading)
  idle : p = .idle → v.waiting = []
  first : p = .connecting → v.waiting ≠ []
  buffer : p ≠ .writing → v.buffer = []
  carried : p = .writing → v.buffer ≠ [] ∧ ∃ before, v.wire = before ++ [v.buffer]

/-- The operation under way tells the phase. -/
theorem Live.eq_connecting {p : Phase} (hv : v.Live p) (h : v.connecting = true) : p = .connecting :=
  of_decide_eq_true (hv.connecting.symm.trans h)

theorem Live.eq_writing {p : Phase} (hv : v.Live p) (h : v.writing = true) : p = .writing :=
  of_decide_eq_true (hv.writing.symm.trans h)

theorem Live.eq_reading {p : Phase} (hv : v.Live p) (h : v.reading = true) : p = .reading :=
  of_decide_eq_true (hv.reading.symm.trans h)

/-- **A request is lost exactly when the queue is full.** -/
theorem whole_push_iff (hv : v.Whole) : (v.push a).Whole ↔ v.waiting.length < v.capacity := by
  have hlength : v.sent.length = (v.dequeued ++ v.discarded ++ v.waiting).length := congrArg List.length hv.1
  unfold Whole push
  split
  · rename_i hroom
    refine iff_of_true ⟨?_, hv.2⟩ hroom
    rw [hv.1, List.append_assoc _ v.waiting]
  · rename_i hfull
    refine iff_of_false (fun hwhole => ?_) hfull
    have hlost := congrArg List.length hwhole.1
    simp only [List.length_append, List.length_singleton] at hlength hlost
    omega

theorem whole_close_iff : v.close.Whole ↔ v.Whole := by
  unfold Whole close
  rw [List.append_nil, List.append_assoc]

theorem Whole.take {rest : List α} (hv : v.Whole) (hlive : v.Live .stalled) (hwaiting : v.waiting = a :: rest) :
    (v.take a rest).Whole := by
  refine ⟨?_, ?_⟩
  · simp only [Sender.take, hv.1, hlive.discarded, hwaiting, List.append_nil, List.append_assoc, List.singleton_append]
  · simp only [Sender.take, hv.2, hlive.buffer (by decide), List.nil_append, List.map_append, List.map_cons, List.map_nil]

/-- **A connection whose write breaks off carries no whole request.** -/
theorem not_whole_breakOff {k : ℕ} (hv : v.Whole) (hlive : v.Live .writing) (hk : k < v.buffer.length) :
    ¬ (v.breakOff k).Whole := by
  rintro ⟨-, hwire⟩
  obtain ⟨-, before, hbefore⟩ := hlive.carried rfl
  have hlast : before ++ [v.buffer.take k] = before ++ [v.buffer] := by
    calc before ++ [v.buffer.take k] = v.wire.dropLast ++ [v.buffer.take k] := by rw [hbefore, List.dropLast_concat]
      _ = v.dequeued.map v.encode := hwire
      _ = before ++ [v.buffer] := by rw [← hv.2, hbefore]
  have hlength := congrArg List.length (List.singleton_inj.1 (List.append_cancel_left hlast))
  rw [List.length_take] at hlength
  omega

theorem push_waiting_ne_nil (hroom : v.waiting.length < v.capacity) : (v.push a).waiting ≠ [] := by
  simp [push, hroom]

/-- A busy sender queues what it is handed. -/
theorem Live.push (h : v.Live p) (hp : p ≠ .idle) : (v.push a).Live p where
  discarded := h.discarded
  busy := h.busy
  connecting := h.connecting
  writing := h.writing
  reading := h.reading
  idle hidle := absurd hidle hp
  first hfirst := by
    unfold Sender.push
    split
    · exact List.concat_ne_nil _ _
    · exact h.first hfirst
  buffer := h.buffer
  carried := h.carried

/-- An idle sender connects for what it is handed. -/
theorem Live.push_start (h : v.Live .idle) (hroom : v.waiting.length < v.capacity) :
    (v.push a).start.Live .connecting where
  discarded := h.discarded
  busy := rfl
  connecting := rfl
  writing := h.writing
  reading := h.reading
  idle hidle := by cases hidle
  first _ := push_waiting_ne_nil hroom
  buffer _ := h.buffer (by decide)
  carried hwriting := by cases hwriting

/-- The sender goes on with the next request. -/
theorem Live.reconnect (h : v.Live .stalled) (hwaiting : v.waiting ≠ []) :
    Live { v with connecting := true } .connecting where
  discarded := h.discarded
  busy := h.busy
  connecting := rfl
  writing := h.writing
  reading := h.reading
  idle hidle := by cases hidle
  first _ := hwaiting
  buffer _ := h.buffer (by decide)
  carried hwriting := by cases hwriting

/-- The sender comes to rest. -/
theorem Live.rest (h : v.Live .stalled) (hwaiting : v.waiting = []) : Live { v with busy := false } .idle where
  discarded := h.discarded
  busy := rfl
  connecting := h.connecting
  writing := h.writing
  reading := h.reading
  idle _ := hwaiting
  first hfirst := by cases hfirst
  buffer _ := h.buffer (by decide)
  carried hwriting := by cases hwriting

/-- A connection attempt ends. -/
theorem Live.connected (h : v.Live .connecting) : Live { v with connecting := false } .stalled where
  discarded := h.discarded
  busy := h.busy
  connecting := rfl
  writing := h.writing
  reading := h.reading
  idle hidle := by cases hidle
  first hfirst := by cases hfirst
  buffer _ := h.buffer (by decide)
  carried hwriting := by cases hwriting

/-- The first request is written. -/
theorem Live.take {rest : List α} (h : v.Live .stalled) (hencode : v.encode a ≠ []) :
    (v.take a rest).Live .writing where
  discarded := h.discarded
  busy := h.busy
  connecting := h.connecting
  writing := rfl
  reading := h.reading
  idle hidle := by cases hidle
  first hfirst := by cases hfirst
  buffer hwriting := absurd rfl hwriting
  carried _ := ⟨List.append_ne_nil_of_right_ne_nil _ hencode, _, rfl⟩

/-- A write ends. -/
theorem Live.written (h : v.Live .writing) :
    Live { v with writing := false, buffer := [], reading := true } .reading where
  discarded := h.discarded
  busy := h.busy
  connecting := h.connecting
  writing := rfl
  reading := rfl
  idle hidle := by cases hidle
  first hfirst := by cases hfirst
  buffer _ := rfl
  carried hwriting := by cases hwriting

/-- A read ends. -/
theorem Live.answered (h : v.Live .reading) : Live { v with reading := false } .stalled where
  discarded := h.discarded
  busy := h.busy
  connecting := h.connecting
  writing := h.writing
  reading := rfl
  idle hidle := by cases hidle
  first hfirst := by cases hfirst
  buffer _ := h.buffer (by decide)
  carried hwriting := by cases hwriting

end Sender
end Lib
end EtcMiner
