/-
# The hash rate of a miner

`Miner::updateHashRate` and `Miner::TriggerHashRateUpdate` in `libeth/Miner.cpp`.  The worker
counts hashes all the time and computes a rate only when the farm has set `m_hashRateUpdate`;
the farm, which finds the flag still set, takes the miner for dead and stores the rate `0`.  The
flag is passed with `compare_exchange_weak`, which may fail although the flag is as expected, and
what follows it is a step of its own: the other thread can be in between.

Every call of `updateHashRate` is part of exactly one window, the windows follow each other without
a gap, and what the miner shows is `0` or the rate of the last window whose rate was stored
(`hashRate_accounts`).
-/

import EtcMiner.Lib.Run
import Mathlib.Algebra.BigOperators.Group.List.Basic
import Mathlib.Algebra.Order.Field.Rat
import Mathlib.Data.BitVec

namespace EtcMiner
namespace Eth

open Lib

/-- One call of `updateHashRate`; the time is in nanoseconds. -/
structure HashUpdate where
  groupSize : BitVec 32
  increment : BitVec 32
  now : ℕ
deriving DecidableEq

/-- The hashes of the call, as they are added to `m_groupCount`. -/
def HashUpdate.hashes (u : HashUpdate) : BitVec 64 := (u.increment * u.groupSize).setWidth 64

/-- The fields of `Miner` for the hash rate.  `storing` is the rate the worker is about to store,
`zeroing` says that the farm is about to store `0`. -/
structure HashMeter where
  groupCount : BitVec 64 := 0
  hashTime : ℕ
  hashRate : ℚ := 0
  hashRateUpdate : Bool := false
  storing : Option ℚ := none
  zeroing : Bool := false
deriving DecidableEq

/-- The steps of the worker (`update`, `store`) and of the farm (`trigger`, `zero`).  `spurious` says
that `compare_exchange_weak` fails without reason. -/
inductive MeterEvent where
  | update (u : HashUpdate) (spurious : Bool)
  | store
  | trigger (spurious : Bool)
  | zero
deriving DecidableEq

/-- The call of `updateHashRate` in the event. -/
def MeterEvent.update? : MeterEvent → Option HashUpdate
  | .update u _ => some u
  | _ => none

section Meter

variable (toFloat toDouble : ℚ → ℚ)

/-- `us ? float(m_groupCount * 1e6) / us : 0.0f`, where `toFloat` and `toDouble` are the roundings of
the machine. -/
def windowRate (groupCount : BitVec 64) (us : ℕ) : ℚ :=
  if us = 0 then 0 else toFloat (toFloat (toDouble (toDouble groupCount.toNat * 1000000)) / toFloat us)

/-- One step. -/
def HashMeter.next (m : HashMeter) : MeterEvent → HashMeter
  | .update u spurious =>
    let groupCount := m.groupCount + u.hashes
    if m.hashRateUpdate && !spurious then
      { m with
        groupCount := 0
        hashTime := u.now
        hashRateUpdate := false
        storing := some (windowRate toFloat toDouble groupCount ((u.now - m.hashTime) / 1000)) }
    else { m with groupCount := groupCount }
  | .store => { m with hashRate := m.storing.getD m.hashRate, storing := none }
  | .trigger spurious =>
    if !m.hashRateUpdate && !spurious then { m with hashRateUpdate := true } else { m with zeroing := true }
  | .zero => { m with hashRate := 0, zeroing := false }

/-- The worker stores a rate before it counts again, and the farm stores its `0` before it triggers
again. -/
def HashMeter.Fits (m : HashMeter) : MeterEvent → Prop
  | .update _ _ => m.storing = none
  | .store => m.storing.isSome = true
  | .trigger _ => m.zeroing = false
  | .zero => m.zeroing = true

instance (m : HashMeter) : ∀ e, Decidable (m.Fits e)
  | .update _ _ | .store | .trigger _ | .zero => inferInstanceAs (Decidable (_ = _))

/-- The miner when it is constructed. -/
def HashMeter.init (start : ℕ) : HashMeter := { hashTime := start }

/-- A window: the calls that only count, and the one that computes the rate. -/
structure Window where
  earlier : List HashUpdate
  last : HashUpdate

def Window.updates (w : Window) : List HashUpdate := w.earlier ++ [w.last]

/-- The hashes of several calls. -/
def totalHashes (us : List HashUpdate) : BitVec 64 := (us.map HashUpdate.hashes).sum

/-- The time at which the last window ends. -/
def windowsEnd (start : ℕ) (ws : List Window) : ℕ := (ws.getLast?.map fun w => w.last.now).getD start

/-- The rates of windows that follow each other. -/
def windowRates (start : ℕ) : List Window → List ℚ
  | [] => []
  | w :: ws =>
    windowRate toFloat toDouble (totalHashes w.updates) ((w.last.now - start) / 1000) ::
      windowRates w.last.now ws

theorem windowsEnd_concat (start : ℕ) (ws : List Window) (w : Window) :
    windowsEnd start (ws ++ [w]) = w.last.now := by
  simp [windowsEnd]

theorem windowRates_concat (start : ℕ) (ws : List Window) (w : Window) :
    windowRates toFloat toDouble start (ws ++ [w]) = windowRates toFloat toDouble start ws ++
      [windowRate toFloat toDouble (totalHashes w.updates) ((w.last.now - windowsEnd start ws) / 1000)] := by
  induction ws generalizing start with
  | nil => rfl
  | cons v ws ih =>
    have hend : windowsEnd start (v :: ws) = windowsEnd v.last.now ws := by
      cases ws with
      | nil => rfl
      | cons w' ws => simp [windowsEnd, List.getLast?_cons]
    simp only [List.cons_append, windowRates, ih, hend]

theorem totalHashes_concat (us : List HashUpdate) (u : HashUpdate) :
    totalHashes (us ++ [u]) = totalHashes us + u.hashes := by
  simp [totalHashes]

/-- **The books of the meter**: the calls so far make windows and a rest that is being counted, the
rates of the windows are those that were reported and the one about to be stored, and what is
shown is `0` or the last rate reported. -/
structure HashMeter.Books (start : ℕ) (m : HashMeter) (es : List MeterEvent) (ws : List Window)
    (pending : List HashUpdate) (reported : List ℚ) : Prop where
  updates : ws.flatMap Window.updates ++ pending = es.filterMap MeterEvent.update?
  groupCount : m.groupCount = totalHashes pending
  hashTime : m.hashTime = windowsEnd start ws
  rates : windowRates toFloat toDouble start ws = reported ++ m.storing.toList
  stores : reported.length = es.count .store
  shown : m.hashRate = 0 ∨ reported.getLast? = some m.hashRate

/-- Every step keeps the books. -/
theorem HashMeter.Books.next {start : ℕ} {m : HashMeter} {es : List MeterEvent} {ws : List Window}
    {pending : List HashUpdate} {reported : List ℚ} (h : m.Books toFloat toDouble start es ws pending reported)
    {e : MeterEvent} (he : m.Fits e) :
    ∃ ws pending reported, (m.next toFloat toDouble e).Books toFloat toDouble start (es ++ [e]) ws pending reported := by
  cases e with
  | update u spurious =>
    have hidle : m.storing = none := he
    have hcount : m.groupCount + u.hashes = totalHashes (pending ++ [u]) := by
      rw [totalHashes_concat, h.groupCount]
    have hstores : reported.length = (es ++ [MeterEvent.update u spurious]).count .store := by
      simp [h.stores]
    by_cases hanswer : (m.hashRateUpdate && !spurious) = true
    · refine ⟨ws ++ [⟨pending, u⟩], [], reported, ?_⟩
      simp only [HashMeter.next, hanswer, if_true]
      refine ⟨?_, rfl, (windowsEnd_concat start ws ⟨pending, u⟩).symm, ?_, hstores, h.shown⟩
      · simp [Window.updates, MeterEvent.update?, ← h.updates]
      · have hrates := h.rates
        rw [hidle, Option.toList_none, List.append_nil] at hrates
        rw [windowRates_concat, hrates, hcount, h.hashTime]
        rfl
    · refine ⟨ws, pending ++ [u], reported, ?_⟩
      simp only [HashMeter.next, if_neg hanswer]
      refine ⟨?_, hcount, h.hashTime, h.rates, hstores, h.shown⟩
      simp [MeterEvent.update?, ← h.updates]
  | store =>
    obtain ⟨r, hr⟩ := Option.isSome_iff_exists.1 he
    refine ⟨ws, pending, reported ++ [r], ?_⟩
    simp only [HashMeter.next]
    refine ⟨?_, h.groupCount, h.hashTime, ?_, ?_, .inr ?_⟩
    · simp [MeterEvent.update?, h.updates]
    · rw [h.rates, hr]
      simp
    · simp [h.stores]
    · simp [hr]
  | trigger spurious =>
    refine ⟨ws, pending, reported, ?_⟩
    have hupdates : ws.flatMap Window.updates ++ pending =
        (es ++ [MeterEvent.trigger spurious]).filterMap MeterEvent.update? := by
      simp [MeterEvent.update?, h.updates]
    have hstores : reported.length = (es ++ [MeterEvent.trigger spurious]).count .store := by
      simp [h.stores]
    simp only [HashMeter.next]
    split
    · exact ⟨hupdates, h.groupCount, h.hashTime, h.rates, hstores, h.shown⟩
    · exact ⟨hupdates, h.groupCount, h.hashTime, h.rates, hstores, h.shown⟩
  | zero =>
    refine ⟨ws, pending, reported, ?_⟩
    refine ⟨?_, h.groupCount, h.hashTime, h.rates, ?_, .inl rfl⟩
    · simp [MeterEvent.update?, h.updates]
    · simp [h.stores]

/-- **No hash is lost or counted twice.**  After every run of the two threads the calls of
`updateHashRate` fall into windows that follow each other from the construction of the miner on,
and a rest whose hashes are in `m_groupCount`.  The rates of the windows have been stored one after
the other, up to one that the worker is about to store, and the miner shows `0` or the last of
them. -/
theorem hashRate_accounts (start : ℕ) {es : List MeterEvent}
    (hfits : Along (HashMeter.next toFloat toDouble) HashMeter.Fits (HashMeter.init start) es) :
    ∃ ws pending reported, (run (HashMeter.next toFloat toDouble) (HashMeter.init start) es).Books toFloat toDouble
      start es ws pending reported := by
  refine @Along.run_log _ _ (HashMeter.next toFloat toDouble) HashMeter.Fits (HashMeter.init start)
    (fun m es => ∃ ws pending reported, m.Books toFloat toDouble start es ws pending reported) [] ?_ ?_ es hfits
  · exact ⟨[], [], [], rfl, rfl, rfl, rfl, rfl, .inl rfl⟩
  · rintro m done e ⟨ws, pending, reported, h⟩ he
    exact h.next toFloat toDouble he

end Meter

/-- A miner that counts 64 groups of 64 hashes and answers one trigger of two. -/
def meterRun : List MeterEvent :=
  [.update ⟨64, 64, 1000000⟩ false, .trigger false, .update ⟨64, 64, 2000000⟩ false, .store, .trigger false]

theorem hashRate_accounts_meterRun :
    ∃ ws pending reported, (run (HashMeter.next id id) (HashMeter.init 0) meterRun).Books id id 0 meterRun ws
      pending reported :=
  hashRate_accounts id id 0 (by decide +kernel)

end Eth
end EtcMiner
