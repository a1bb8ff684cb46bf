/-
# Response pleas

`enqueue_response_plea`, `dequeue_response_plea` and `clear_response_pleas` in
`libpool/stratum/EthStratumClient.cpp`.  The client stamps every request it sends and
takes the stamps off a queue as the responses come in; the time of the oldest
request is cached in `m_response_plea_older`, by which the work loop drops a pool that
does not answer.

`dequeue_response_plea` refreshes the cache from the head of the queue, which is the
request just answered.  With a second request under way the cache is then too
old: it is right along a run exactly when no response is taken while the two oldest
requests have different times (`timed_iff_noOverlap`).
-/

import EtcMiner.Lib.Run
import Mathlib.Data.Int.Basic
import Mathlib.Data.Nat.Basic

namespace EtcMiner
namespace Stratum

open Lib

/-- The capacity of `m_response_plea_times`. -/
def pleaCapacity : ℕ := 64

/-- `m_response_pleas_count`, `m_response_plea_older` and `m_response_plea_times`.  Times
are in nanoseconds. -/
structure Pleas where
  count : ℕ := 0
  older : ℤ
  times : List ℤ := []

/-- `enqueue_response_plea`.  `bounded_push` drops the time when the queue is full. -/
def Pleas.enqueue (p : Pleas) (now : ℤ) : Pleas where
  count := p.count + 1
  older := if p.count = 0 then now else p.older
  times := if p.times.length < pleaCapacity then p.times ++ [now] else p.times

/-- `duration_cast<milliseconds>` of the time from `t` to `now`. -/
def delayMs (now t : ℤ) : ℤ := (now - t).tdiv 1000000

/-- `dequeue_response_plea`, with the delay it returns. -/
def Pleas.dequeue (p : Pleas) (now : ℤ) : Pleas × ℤ :=
  let responseDelayMs := delayMs now p.older
  let popped : Pleas :=
    match p.times with
    | [] => p
    | t :: times => { p with older := t, times := times }
  if 0 < p.count then ({ popped with count := p.count - 1 }, responseDelayMs) else (popped, 0)

/-- `clear_response_pleas`. -/
def Pleas.clear (now : ℤ) : Pleas where
  older := now

/-- A call, with the time at which it is made. -/
inductive PleaCall where
  | enqueue (now : ℤ)
  | dequeue (now : ℤ)
  | clear (now : ℤ)

/-- The time of a call. -/
def PleaCall.now : PleaCall → ℤ
  | .enqueue now => now
  | .dequeue now => now
  | .clear now => now

/-- The pleas of the client after a call. -/
def Pleas.call (p : Pleas) : PleaCall → Pleas
  | .enqueue now => p.enqueue now
  | .dequeue now => (p.dequeue now).1
  | .clear now => Pleas.clear now

/-- What the pleas are for: the times of the requests not yet answered, oldest first. -/
def outstanding (pending : List ℤ) : PleaCall → List ℤ
  | .enqueue now => pending ++ [now]
  | .dequeue _ => pending.tail
  | .clear _ => []

/-- The client next to the requests not yet answered. -/
structure Ledger where
  pleas : Pleas
  pending : List ℤ

/-- No request has been sent; `older` is whatever `m_response_plea_older` holds. -/
def Ledger.init (older : ℤ) : Ledger := ⟨{ older := older }, []⟩

/-- The state after one call. -/
def Ledger.next (s : Ledger) (c : PleaCall) : Ledger := ⟨s.pleas.call c, outstanding s.pending c⟩

/-- The cached time is that of the oldest request not yet answered. -/
def Ledger.Timed (s : Ledger) : Prop := 0 < s.pleas.count → s.pending.head? = some s.pleas.older

/-- What a call must do: a response is timed from the oldest request, and the cached time
is right after the call. -/
def Ledger.TimesResponse (s : Ledger) (c : PleaCall) : Prop :=
  (match c with
    | .dequeue now => 0 < s.pleas.count →
      ∃ t, s.pending.head? = some t ∧ (s.pleas.dequeue now).2 = delayMs now t
    | _ => True) ∧ (s.next c).Timed

/-- No more than `pleaCapacity` requests are under way. -/
def Ledger.Bounded (s : Ledger) : PleaCall → Prop
  | .enqueue _ => s.pending.length < pleaCapacity
  | _ => True

/-- No response is taken while the two oldest requests have different times. -/
def Ledger.NoOverlap (s : Ledger) : PleaCall → Prop
  | .dequeue _ =>
    match s.pending with
    | t :: t' :: _ => t = t'
    | _ => True
  | _ => True

/-- The queue and the counter agree with the requests under way. -/
structure Ledger.Tracks (s : Ledger) : Prop where
  times : s.pleas.times = s.pending
  count : s.pleas.count = s.pending.length

/-- The invariant of the runs in which the cached time is right. -/
structure Ledger.Inv (s : Ledger) : Prop extends s.Tracks where
  timed : s.Timed

/-- **The queue refines the list of requests** as long as it does not overflow. -/
theorem Ledger.Tracks.next {s : Ledger} (h : s.Tracks) {c : PleaCall} (hb : s.Bounded c) :
    (s.next c).Tracks := by
  obtain ⟨⟨count, older, times⟩, pending⟩ := s
  obtain ⟨htimes, hcount⟩ := h
  simp only at htimes hcount
  subst htimes hcount
  cases c with
  | enqueue now =>
    have hlt : times.length < pleaCapacity := hb
    exact ⟨by simp [Ledger.next, Pleas.call, Pleas.enqueue, outstanding, hlt],
      by simp [Ledger.next, Pleas.call, Pleas.enqueue, outstanding]⟩
  | dequeue now => cases times <;> exact ⟨rfl, rfl⟩
  | clear now => exact ⟨rfl, rfl⟩

/-- **One call is right exactly when it does not overlap**, from a state that is. -/
theorem Ledger.Inv.timesResponse_iff {s : Ledger} (h : s.Inv) (c : PleaCall) :
    s.TimesResponse c ↔ s.NoOverlap c := by
  obtain ⟨⟨count, older, times⟩, pending⟩ := s
  obtain ⟨⟨htimes, hcount⟩, ht⟩ := h
  simp only at htimes hcount
  subst htimes hcount
  cases c with
  | enqueue now =>
    refine iff_of_true ⟨trivial, fun _ => ?_⟩ trivial
    cases times with
    | nil => rfl
    | cons t times =>
      have hold : t = older := Option.some.inj (ht (Nat.succ_pos _))
      simp [Ledger.next, Pleas.call, Pleas.enqueue, outstanding, hold]
  | dequeue now =>
    rcases times with _ | ⟨t, _ | ⟨t', times⟩⟩
    · exact iff_of_true ⟨fun h => absurd h (Nat.lt_irrefl 0), fun h => absurd h (Nat.lt_irrefl 0)⟩ trivial
    · have hold : t = older := Option.some.inj (ht (Nat.succ_pos _))
      refine iff_of_true ⟨fun _ => ⟨t, rfl, ?_⟩, fun h => absurd h (Nat.lt_irrefl 0)⟩ trivial
      rw [hold]
      rfl
    · have hold : t = older := Option.some.inj (ht (Nat.succ_pos _))
      constructor
      · rintro ⟨-, htimed⟩
        exact (Option.some.inj (htimed (Nat.succ_pos _))).symm
      · rintro (rfl : t = t')
        refine ⟨fun _ => ⟨t, rfl, ?_⟩, fun _ => rfl⟩
        rw [hold]
        rfl
  | clear now => exact iff_of_true ⟨trivial, fun h => absurd h (Nat.lt_irrefl 0)⟩ trivial

/-- **When response pleas are timed from the oldest unanswered request.**  In a run with at
most `pleaCapacity` requests under way, every response is timed from the oldest request
and the cached time is right in every state exactly when no response is taken while the
two oldest requests have different times. -/
theorem timed_iff_noOverlap (older : ℤ) (cs : List PleaCall)
    (hb : Along Ledger.next Ledger.Bounded (.init older) cs) :
    Along Ledger.next Ledger.TimesResponse (.init older) cs ↔
      Along Ledger.next Ledger.NoOverlap (.init older) cs := by
  have h0 : (Ledger.init older).Inv := ⟨⟨rfl, rfl⟩, fun h => absurd h (Nat.lt_irrefl 0)⟩
  have hruns : Along Ledger.next (fun s c => s.Bounded c ∧ s.TimesResponse c) (.init older) cs ↔
      Along Ledger.next (fun s c => s.Bounded c ∧ s.NoOverlap c) (.init older) cs := by
    refine along_iff_along h0 (fun s c hinv => ?_) (fun s c hinv hstep => ?_) cs
    · rw [hinv.timesResponse_iff]
    · exact ⟨hinv.next hstep.1, hstep.2.2⟩
  rw [along_and, along_and] at hruns
  constructor
  · exact fun h => (hruns.1 ⟨hb, h⟩).2
  · exact fun h => (hruns.2 ⟨hb, h⟩).2

/-- Requests at 0 and 5 ms, responses at 10 and 11 ms. -/
def overlapRun : List PleaCall :=
  [.enqueue 0, .enqueue 5000000, .dequeue 10000000, .dequeue 11000000]

theorem overlapRun_bounded : Along Ledger.next Ledger.Bounded (.init 0) overlapRun :=
  ⟨show 0 < 64 by decide, show 1 < 64 by decide, trivial, trivial, trivial⟩

/-- After the first response the cached time is still that of the request answered, so the
second response is timed at 11 ms although its request is 6 ms old. -/
theorem overlapRun_not_timed :
    (overlapRun.map PleaCall.now).Pairwise (· ≤ ·) ∧
      Along Ledger.next Ledger.Bounded (.init 0) overlapRun ∧
      ¬ Along Ledger.next Ledger.TimesResponse (.init 0) overlapRun ∧
      ((run Ledger.next (.init 0) (overlapRun.take 3)).pleas.dequeue 11000000).2 = 11 := by
  refine ⟨by decide, overlapRun_bounded, fun h => ?_, by decide⟩
  obtain ⟨-, -, ⟨-, htimed⟩, -⟩ := h
  exact absurd (htimed (by decide)) (by decide)

/-- `timed_iff_noOverlap` at `overlapRun`. -/
theorem timed_iff_noOverlap_overlapRun :
    Along Ledger.next Ledger.TimesResponse (.init 0) overlapRun ↔
      Along Ledger.next Ledger.NoOverlap (.init 0) overlapRun :=
  timed_iff_noOverlap 0 overlapRun overlapRun_bounded

end Stratum
end EtcMiner
