/-
# The difficulties in the log

`PoolManager::showMiningAt` logs the difficulty of a new job and `Farm::submitProofAsync` that of a solution.
Both divide by the boundary or the final hash, which throws for a zero, and format the quotient with a
suffix, which reads past the table if the quotient is above `10 ^ 18` (`showMiningAtLine_eq_pastTable_iff`,
`solutionLine_eq_pastTable_iff`).  A boundary comes from the pool and a final hash from luck, so both happen on
the thread of the `io_service` whatever the miner does.

**`scaling_inside_iff`** puts together when the loops that choose a suffix stay inside their table.
-/

import EtcMiner.Eth.TelemetryText
import EtcMiner.Pool.SubmitProof
import EtcMiner.Pool.WorkHandler

namespace EtcMiner
namespace Pool

open Common Eth Ethash Lib

section Lines

variable (ft : FloatText)

/-- The line of `showMiningAt()`, if it logs one. -/
def showMiningAtLine (currentWp : WorkPackage) : Except FormatError (Option (List Char)) :=
  if currentWp.IsVoid then .ok none
  else do
    let d ← formatDifficulty ft currentWp.boundary
    return some ("Epoch : ".toList ++ ethWhite ++ decimalText currentWp.epoch ++ ethReset ++ " Difficulty : ".toList ++
      ethWhite ++ d ++ ethReset)

/-- The line of `submitProofAsync` for a solution it hands on, if it logs one. -/
def solutionLine (eval : Eval) (s : Solution) : Except FormatError (Option (List Char)) :=
  if (submitProofAsync eval s).isSome ∧ s.nonce ≠ 0 then do
    let d ← formatDifficulty ft (eval s.work.epoch s.work.header s.nonce).2
    return some (ethWhite ++ "Solution difficulty: ".toList ++ d)
  else .ok none

variable {ft} {w : WorkPackage} {eval : Eval} {s : Solution}

/-- The line is not logged where `showMiningAt` throws. -/
theorem showMiningAtLine_eq_divisionByZero_iff :
    showMiningAtLine ft w = .error .divisionByZero ↔ showMiningAt w = none := by
  unfold showMiningAtLine showMiningAt
  split_ifs
  · exact iff_of_false nofun nofun
  · exact map_eq_error_iff.trans formatDifficulty_eq_divisionByZero_iff

/-- The line is not logged where `submitProofAsync` throws for a zero hash. -/
theorem solutionLine_eq_divisionByZero_iff {now : ℤ} {t : FarmAccounts} :
    solutionLine ft eval s = .error .divisionByZero ↔ thrown (checkSolution eval now s) t = some .divisionByZero := by
  unfold solutionLine checkSolution
  cases submitProofAsync eval s with
  | none =>
    have haccount : thrown (accountSolution now s.midx .failed) t ≠ some .divisionByZero := by
      unfold thrown accountSolution
      rw [run_modify_bind, run_get_bind]
      dsimp only
      cases t.miners[s.midx]? with
      | none => exact nofun
      | some a => exact nofun
    exact iff_of_false (by simp) haccount
  | some found =>
    unfold thrown
    dsimp only
    rw [run_modify_bind]
    by_cases hnonce : s.nonce = 0
    · rw [if_neg fun h => h.2 hnonce, if_neg (not_not.2 hnonce)]
      exact iff_of_false nofun nofun
    · rw [if_pos ⟨rfl, hnonce⟩, if_pos hnonce, map_eq_error_iff, formatDifficulty_eq_divisionByZero_iff]
      cases getHashesToTarget (FixedHash.hex (eval s.work.epoch s.work.header s.nonce).2) with
      | none => exact iff_of_true rfl rfl
      | some hashes => exact iff_of_false nofun nofun

variable {printFixed : ℕ → ℚ → List Char}

theorem showMiningAtLine_eq_pastTable_iff (hboundary : w.boundary ≠ fun _ => 0) :
    showMiningAtLine (.exact printFixed) w = .error .pastTable ↔ ¬ w.IsVoid ∧ ¬ WithinSuffixes w.boundary := by
  unfold showMiningAtLine
  split_ifs with hvoid
  · exact iff_of_false nofun fun h => h.1 hvoid
  · rw [map_eq_error_iff, formatDifficulty_eq_pastTable_iff hboundary]
    exact (and_iff_right hvoid).symm

theorem solutionLine_eq_pastTable_iff (hfinal : (eval s.work.epoch s.work.header s.nonce).2 ≠ fun _ => 0) :
    solutionLine (.exact printFixed) eval s = .error .pastTable ↔
      ((submitProofAsync eval s).isSome ∧ s.nonce ≠ 0) ∧ ¬ WithinSuffixes (eval s.work.epoch s.work.header s.nonce).2 := by
  unfold solutionLine
  split_ifs with hlogs
  · rw [map_eq_error_iff, formatDifficulty_eq_pastTable_iff hfinal]
    exact (and_iff_right hlogs).symm
  · exact iff_of_false nofun fun h => hlogs h.1

end Lines

section Inside

variable (printFixed : ℕ → ℚ → List Char)

/-- **When the suffix is inside its table.**  The loop of `getScaledSize` ends inside a table of `n` entries
exactly for the values up to `divisor ^ n`, that of `strvec` exactly for the rates up to `1000 ^ 6`; so
the difficulty of a boundary or a final hash that is not zero is read inside the table exactly if it is at
most `10 ^ 18`, or not logged. -/
theorem scaling_inside_iff :
    (∀ (value divisor : ℚ) (sizes : Suffixes), 0 ≤ value → 1 < divisor →
      ((scaledSize (.exact printFixed) value divisor sizes).2 < sizes.numsizes ↔ value ≤ divisor ^ sizes.numsizes)) ∧
    (∀ t : TelemetryType, 0 ≤ t.farm.hashrate →
      ((t.scaledRate (.exact printFixed)).2 < strvecSuffixes.numsizes ↔ t.farm.hashrate ≤ 1000 ^ 6)) ∧
    (∀ w : WorkPackage, w.boundary ≠ (fun _ => 0) →
      (showMiningAtLine (.exact printFixed) w ≠ .error .pastTable ↔ w.IsVoid ∨ WithinSuffixes w.boundary)) ∧
    ∀ (eval : Eval) (s : Solution), (eval s.work.epoch s.work.header s.nonce).2 ≠ (fun _ => 0) →
      (solutionLine (.exact printFixed) eval s ≠ .error .pastTable ↔
        submitProofAsync eval s = none ∨ s.nonce = 0 ∨ WithinSuffixes (eval s.work.epoch s.work.header s.nonce).2) := by
  refine ⟨?_, ?_, ?_, ?_⟩
  · intro value divisor sizes _ hdivisor
    exact scaledSize_lt_iff hdivisor
  · intro t _
    exact TelemetryType.scaledRate_lt_iff
  · intro w hboundary
    rw [Ne, showMiningAtLine_eq_pastTable_iff hboundary, not_and_or, not_not, not_not]
  · intro eval s hfinal
    rw [Ne, solutionLine_eq_pastTable_iff hfinal, not_and_or, not_and_or, not_not, not_not, or_assoc,
      Bool.not_eq_true, Option.isSome_eq_false_iff, Option.isNone_iff_eq_none]

/-- A job whose boundary has the byte `b` at the place `k`, and zeros. -/
def jobWithBoundary (k : Fin 32) (b : Byte) : WorkPackage :=
  { header := fun _ => 1, boundary := fun i => if i = k then b else 0 }

/-- A farm with the rate `hashrate`. -/
def farmWithRate (hashrate : ℚ) : TelemetryType :=
  { start := 0, farm := { hashrate := hashrate, solutions := { tstamp := 0 } }, miners := [] }

theorem scaling_inside_easy :
    (scaledSize (.exact fun _ _ => []) 1500 1000 hashSuffixes).2 < hashSuffixes.numsizes ∧
      ((farmWithRate 1500).scaledRate (.exact fun _ _ => [])).2 < strvecSuffixes.numsizes ∧
      showMiningAtLine (.exact fun _ _ => []) (jobWithBoundary 0 1) ≠ .error .pastTable := by
  obtain ⟨hsize, hrate, hjob, -⟩ := scaling_inside_iff fun _ _ => []
  refine ⟨(hsize 1500 1000 hashSuffixes ?_ ?_).2 ?_, (hrate (farmWithRate 1500) ?_).2 ?_, (hjob (jobWithBoundary 0 1) ?_).2 (.inr ?_)⟩
  all_goals decide +kernel

/-- **A boundary of one, and a rate above a thousand petahashes**, are shown with the suffix behind the last. -/
theorem suffix_past_table :
    (scaledSize (.exact fun _ _ => []) (10 ^ 18 + 1) 1000 hashSuffixes).2 = hashSuffixes.numsizes ∧
      ((farmWithRate (10 ^ 18 + 1)).scaledRate (.exact fun _ _ => [])).2 = strvecSuffixes.numsizes ∧
      showMiningAtLine (.exact fun _ _ => []) (jobWithBoundary 31 1) = .error .pastTable := by
  decide +kernel

end Inside

end Pool
end EtcMiner
