/-
# The books of the farm

`Farm::accountSolution` in `libeth/Farm.cpp` counts a solution in the totals of the farm and then in the
record of the miner, which it looks up with `at`.  The records come and go with `Farm::start` and
`Farm::stop`, also in a restart, while the totals stay; a response of the pool may name a miner that
is no longer there.

Then `at` throws, and the totals have been changed already.  So a call is all or nothing exactly if there is a
record for its index (`allOrNothing_iff`), and all the calls of a run are if and only if each of them
finds its record (`accounting_all_or_nothing_iff`).
-/

import EtcMiner.Eth.CollectData
import EtcMiner.Pool.SubmitProof

namespace EtcMiner
namespace Pool

open Common Eth Lib

/-- The farm as far as its books depend on it: `m_isMining`, `m_miners.size()` and the accounts of
`m_telemetry`. -/
structure FarmBooks where
  isMining : Bool := false
  minerCount : ℕ := 0
  accounts : FarmAccounts

namespace FarmBooks

/-- `Farm::start`; `devices` is the number of subscribed devices. -/
def start (now : ℤ) (devices : ℕ) (f : FarmBooks) : FarmBooks :=
  if f.isMining then f
  else if f.minerCount = 0 then
    { isMining := true
      minerCount := devices
      accounts := { f.accounts with miners := f.accounts.miners ++ List.replicate devices { tstamp := now } } }
  else { f with isMining := true }

/-- `Farm::stop`. -/
def stop (f : FarmBooks) : FarmBooks :=
  if f.isMining then { isMining := false, minerCount := 0, accounts := { f.accounts with miners := [] } } else f

/-- `Farm::restart`, with the handler that `PoolManager` sets. -/
def restart (now : ℤ) (devices : ℕ) (f : FarmBooks) : FarmBooks :=
  (if f.isMining then f.stop else f).start now devices

/-- The books of a farm: as many records as `m_telemetry.miners` has. -/
structure Of (f : FarmBooks) (farm : Farm) : Prop where
  isMining : f.isMining = farm.isMining
  minerCount : f.minerCount = farm.miners.length
  records : f.accounts.miners.length = farm.telemetry.miners.length

variable {f : FarmBooks} {farm : Farm}

theorem Of.start (h : f.Of farm) (now : ℤ) (devices : ℕ) : (f.start now devices).Of (farm.start devices) := by
  have hempty : f.minerCount = 0 ↔ farm.miners = [] := by rw [h.minerCount, List.length_eq_zero_iff]
  unfold FarmBooks.start Farm.start
  by_cases hmining : farm.isMining
  · rwa [if_pos (h.isMining.trans hmining), if_pos hmining]
  rw [if_neg (h.isMining ▸ hmining), if_neg hmining]
  by_cases hminers : farm.miners = []
  · rw [if_pos (hempty.2 hminers), if_pos hminers]
    exact ⟨rfl, by simp, by simp [h.records]⟩
  · rw [if_neg fun h => hminers (hempty.1 h), if_neg hminers]
    exact ⟨rfl, h.minerCount, h.records⟩

theorem Of.stop (h : f.Of farm) : f.stop.Of farm.stop := by
  unfold FarmBooks.stop Farm.stop
  by_cases hmining : farm.isMining
  · rw [if_pos (h.isMining.trans hmining), if_pos hmining]
    exact ⟨rfl, rfl, rfl⟩
  · rwa [if_neg (h.isMining ▸ hmining), if_neg hmining]

end FarmBooks

/-- What happens to the books. -/
inductive BooksEvent where
  | start (now : ℤ) (devices : ℕ)
  | stop
  | restart (now : ℤ) (devices : ℕ)
  | accountSolution (now : ℤ) (minerIdx : ℕ) (accounting : SolutionAccounting)

/-- One step.  An exception leaves the books as they are when it is thrown. -/
def FarmBooks.next (f : FarmBooks) : BooksEvent → FarmBooks
  | .start now devices => f.start now devices
  | .stop => f.stop
  | .restart now devices => f.restart now devices
  | .accountSolution now minerIdx accounting =>
    { f with accounts := final (accountSolution now minerIdx accounting) f.accounts }

/-- The counter of a kind of solutions. -/
def count (a : SolutionAccount) : SolutionAccounting → ℕ
  | .accepted => a.accepted
  | .rejected => a.rejected
  | .wasted => a.wasted
  | .failed => a.failed

/-- All counters of an account. -/
def counters (a : SolutionAccount) : List ℕ := [a.accepted, a.rejected, a.wasted, a.failed, a.collectAcceptd]

/-- One more solution of the kind, for the farm and for the miner, and for no other miner. -/
structure Counted (minerIdx : ℕ) (accounting : SolutionAccounting) (t t' : FarmAccounts) : Prop where
  farm : count t'.farm accounting = count t.farm accounting + 1
  miner : ∃ a a', t.miners[minerIdx]? = some a ∧ t'.miners[minerIdx]? = some a' ∧
    count a' accounting = count a accounting + 1
  others : ∀ i, i ≠ minerIdx → (t'.miners[i]?).map (count · accounting) = (t.miners[i]?).map (count · accounting)

/-- No counter has changed. -/
structure Unchanged (t t' : FarmAccounts) : Prop where
  farm : counters t'.farm = counters t.farm
  miners : t'.miners.map counters = t.miners.map counters

/-- The step adds one, or throws and changes no counter. -/
def AllOrNothing (f : FarmBooks) : BooksEvent → Prop
  | .accountSolution now minerIdx accounting =>
    (∃ t, accountSolution now minerIdx accounting f.accounts = .ok () t ∧ Counted minerIdx accounting f.accounts t) ∨
      ∃ e t, accountSolution now minerIdx accounting f.accounts = .error e t ∧ Unchanged f.accounts t
  | _ => True

/-- There is a record for the index. -/
def HasRecord (f : FarmBooks) : BooksEvent → Prop
  | .accountSolution _ minerIdx _ => minerIdx < f.accounts.miners.length
  | _ => True

section Step

variable (now : ℤ) (a : SolutionAccount) (accounting : SolutionAccounting)

theorem count_account : count (account now a accounting) accounting = count a accounting + 1 := by
  cases accounting <;> rfl

theorem counters_account_ne : counters (account now a accounting) ≠ counters a := by
  cases accounting <;> simp [counters, account]

variable {minerIdx : ℕ} {t : FarmAccounts}

theorem accountSolution_ok (h : minerIdx < t.miners.length) : accountSolution now minerIdx accounting t =
    .ok () { t with
      farm := account now t.farm accounting
      miners := t.miners.set minerIdx (account now t.miners[minerIdx] accounting) } := by
  unfold accountSolution
  rw [run_modify_bind, run_get_bind]
  simp only [List.getElem?_eq_getElem h]
  rfl

/-- **Without a record** the totals have been changed when the exception is thrown. -/
theorem accountSolution_error (h : t.miners.length ≤ minerIdx) : accountSolution now minerIdx accounting t =
    .error .outOfRange { t with farm := account now t.farm accounting } := by
  unfold accountSolution
  rw [run_modify_bind, run_get_bind]
  simp only [List.getElem?_eq_none h]
  rfl

/-- **A call is all or nothing** exactly if there is a record for its index. -/
theorem allOrNothing_iff (f : FarmBooks) (e : BooksEvent) : AllOrNothing f e ↔ HasRecord f e := by
  cases e with
  | start => exact Iff.rfl
  | stop => exact Iff.rfl
  | restart => exact Iff.rfl
  | accountSolution now minerIdx accounting =>
    rcases Nat.lt_or_ge minerIdx f.accounts.miners.length with hlt | hge
    · refine iff_of_true (.inl ⟨_, accountSolution_ok now accounting hlt, ?_⟩) hlt
      refine ⟨count_account now _ _, ⟨_, _, List.getElem?_eq_getElem hlt, ?_, count_account now _ _⟩, fun i hi => ?_⟩
      · rw [List.getElem?_set_self hlt]
      · rw [List.getElem?_set_ne (Ne.symm hi)]
    · refine iff_of_false ?_ (Nat.not_lt.2 hge)
      have hrun := accountSolution_error now accounting hge
      rintro (⟨t, hok, -⟩ | ⟨e, t, herror, hsame⟩)
      · rw [hrun] at hok
        cases hok
      · rw [hrun] at herror
        cases herror
        exact counters_account_ne now _ _ hsame.farm

end Step

/-- **Share accounting is all or nothing**: along every run, from any books, every call adds one or changes
nothing exactly if every call finds a record for its index. -/
theorem accounting_all_or_nothing_iff (f : FarmBooks) (es : List BooksEvent) :
    Along FarmBooks.next AllOrNothing f es ↔ Along FarmBooks.next HasRecord f es :=
  @along_iff_along _ _ _ _ _ f (fun _ => True) trivial (fun f e _ => allOrNothing_iff f e) (fun _ _ _ _ => trivial) es

/-- **A response after a restart with fewer miners** is counted for the farm and for no miner. -/
theorem late_response_counted : ∃ f, run FarmBooks.next ⟨false, 0, { farm := { tstamp := 0 }, miners := [] }⟩
    [.start 0 2, .restart 1 1] = f ∧ ¬ AllOrNothing f (.accountSolution 2 1 .accepted) ∧
      (f.next (.accountSolution 2 1 .accepted)).accounts.farm.accepted = 1 ∧
      (f.next (.accountSolution 2 1 .accepted)).accounts.miners.map (·.accepted) = [0] := by
  refine ⟨_, rfl, ?_, rfl, rfl⟩
  rw [allOrNothing_iff]
  exact Nat.lt_irrefl 1

end Pool
end EtcMiner
