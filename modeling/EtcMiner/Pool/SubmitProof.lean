/-
# The farm checks what a miner has found

`Farm::submitProofAsync` and `Farm::accountSolution` in `libeth/Farm.cpp`, `EthashAux::eval` in
`libeth/EthashAux.cpp`.  The nonce is hashed again on the CPU; if the result is above the
boundary the miner is blamed with one failed solution, otherwise the solution is handed to
`m_onSolutionFound` with the mix hash of the CPU.

The comparison of `FixedHash` goes byte by byte and that of `ethash_verify` word by word, but
both compare big-endian numbers, so exactly the solutions that `ethash_verify` accepts are
handed on (`verifiable_solutions_forwarded`).

The permutation of Keccak and the datasets of the epochs are parameters, the same for both.
-/

import EtcMiner.Ethash.Verify
import EtcMiner.Pool.Deal

namespace EtcMiner
namespace Pool

open Common Eth Ethash Lib

/-- `EthashAux::eval`; `context` is `get_global_epoch_context`. -/
def ethashAuxEval (keccakf : State → State) (context : ℤ → Dataset) : Eval := fun epoch headerHash nonce =>
  let result := ethashHash keccakf (context epoch) (hash256FromBytes headerHash) nonce
  (h256OfHash result.mixHash, h256OfHash result.finalHash)

/-- `SolutionAccountingEnum`. -/
inductive SolutionAccounting where
  | accepted
  | rejected
  | wasted
  | failed
deriving DecidableEq

/-- What `submitProofAsync` changes: the solutions accounted for the farm and for each miner,
and the solutions handed to `m_onSolutionFound`. -/
structure FarmAccounts where
  farm : SolutionAccount
  miners : List SolutionAccount
  found : List Solution := []

/-- The exceptions that leave `submitProofAsync`: there is no miner with the index, or the
difficulty of a solution that hashes to zero is computed. -/
inductive SubmitError where
  | outOfRange
  | divisionByZero
deriving DecidableEq

/-- One more solution of the given kind. -/
def account (now : ℤ) (a : SolutionAccount) : SolutionAccounting → SolutionAccount
  | .accepted => { a with accepted := a.accepted + 1, collectAcceptd := a.collectAcceptd + 1, tstamp := now }
  | .rejected => { a with rejected := a.rejected + 1, tstamp := now }
  | .wasted => { a with wasted := a.wasted + 1, tstamp := now }
  | .failed => { a with failed := a.failed + 1, tstamp := now }

/-- `Farm::accountSolution`. -/
def accountSolution (now : ℤ) (minerIdx : ℕ) (accounting : SolutionAccounting) :
    EStateM SubmitError FarmAccounts Unit := do
  modify fun t => { t with farm := account now t.farm accounting }
  match (← get).miners[minerIdx]? with
  | none => throw .outOfRange
  | some a => modify fun t => { t with miners := t.miners.set minerIdx (account now a accounting) }

/-- `Farm::submitProofAsync`, with what it does to the farm.  The difficulty of the solution is
computed for the log, if the nonce is not zero. -/
def checkSolution (eval : Eval) (now : ℤ) (s : Solution) : EStateM SubmitError FarmAccounts Unit :=
  match submitProofAsync eval s with
  | none => accountSolution now s.midx .failed
  | some found => do
    modify fun t => { t with found := t.found ++ [found] }
    if s.nonce ≠ 0 then
      let _ ← ofOption .divisionByZero
        (getHashesToTarget (FixedHash.hex (eval s.work.epoch s.work.header s.nonce).2))

/-- The farm after one failed solution of the miner `midx`. -/
def FarmAccounts.oneFailed (t : FarmAccounts) (now : ℤ) (midx : ℕ) : FarmAccounts :=
  { t with
    farm := account now t.farm .failed
    miners := t.miners.modify midx fun a => account now a .failed }

theorem final_accountSolution {t : FarmAccounts} {minerIdx : ℕ} (h : minerIdx < t.miners.length) (now : ℤ) :
    final (accountSolution now minerIdx .failed) t = t.oneFailed now minerIdx := by
  have hget : t.miners[minerIdx]? = some t.miners[minerIdx] := List.getElem?_eq_getElem h
  unfold accountSolution
  rw [final_modify_bind, final_get_bind]
  simp only [hget]
  rw [FarmAccounts.oneFailed, List.modify_eq_set_getElem?, hget]
  rfl

/-- What `submitProofAsync` does to the farm. -/
theorem final_checkSolution (eval : Eval) (now : ℤ) {s : Solution} {t : FarmAccounts}
    (h : s.midx < t.miners.length) :
    final (checkSolution eval now s) t =
      (submitProofAsync eval s).elim (t.oneFailed now s.midx) fun found =>
        { t with found := t.found ++ [found] } := by
  unfold checkSolution
  cases submitProofAsync eval s with
  | none => exact final_accountSolution h now
  | some found =>
    dsimp only
    rw [final_modify_bind]
    split
    · cases getHashesToTarget _ <;> rfl
    · rfl

section Verify

variable (keccakf : State → State) (context : ℤ → Dataset)

/-- The final hash of a solution, read as a big-endian number. -/
def finalValue (s : Solution) : ℕ :=
  beValue (bytes (ethashHash keccakf (context s.work.epoch) (hash256FromBytes s.work.header) s.nonce).finalHash)

/-- `ethash_verify` for a solution with the context of its epoch. -/
def verifies (s : Solution) : Bool :=
  ethashVerify keccakf (context s.work.epoch) (hash256FromBytes s.work.header) s.nonce
    (hash256FromBytes s.mixHash) (hash256FromBytes s.work.boundary)

/-- The solution with the mix hash of the CPU. -/
def evaluated (s : Solution) : Solution :=
  { s with mixHash := (ethashAuxEval keccakf context s.work.epoch s.work.header s.nonce).1 }

theorem submitProofAsync_eq (s : Solution) :
    submitProofAsync (ethashAuxEval keccakf context) s =
      if finalValue keccakf context s ≤ FixedHash.arith s.work.boundary then
        some (evaluated keccakf context s)
      else none := by
  have hgt := FixedHash.gt_iff (ethashAuxEval keccakf context s.work.epoch s.work.header s.nonce).2 s.work.boundary
  have hvalue : FixedHash.arith (ethashAuxEval keccakf context s.work.epoch s.work.header s.nonce).2 =
      finalValue keccakf context s := by
    rw [FixedHash.arith, ethashAuxEval, ofFn_h256OfHash]
    rfl
  rw [hvalue] at hgt
  simp only [submitProofAsync]
  by_cases hle : finalValue keccakf context s ≤ FixedHash.arith s.work.boundary
  · rw [if_pos hle, if_neg fun h => absurd hle (not_le.2 (hgt.1 h))]
    rfl
  · rw [if_neg hle, if_pos (hgt.2 (not_le.1 hle))]

/-- With the mix hash of the CPU a solution verifies exactly when it is below the boundary. -/
theorem verifies_evaluated (s : Solution) :
    verifies keccakf context (evaluated keccakf context s) = true ↔
      finalValue keccakf context s ≤ FixedHash.arith s.work.boundary := by
  have hverify := ethashVerify_ethashHash keccakf (context s.work.epoch) (hash256FromBytes s.work.header) s.nonce
    (hash256FromBytes s.work.boundary)
  rw [bytes_hash256FromBytes] at hverify
  unfold verifies evaluated ethashAuxEval
  simp only [hash256FromBytes_h256OfHash]
  exact hverify

/-- **Exactly the verifiable solutions are forwarded.**  For every solution of a miner of the
farm: a solution with its nonce, work and miner that `ethash_verify` accepts is handed on, and
nothing else changes, exactly when the final hash is at most the boundary; otherwise one failed
solution of that miner is accounted, and nothing is handed on. -/
theorem verifiable_solutions_forwarded (now : ℤ) (s : Solution) (t : FarmAccounts)
    (h : s.midx < t.miners.length) :
    ((∃ mixHash, final (checkSolution (ethashAuxEval keccakf context) now s) t =
          { t with found := t.found ++ [{ s with mixHash := mixHash }] } ∧
        verifies keccakf context { s with mixHash := mixHash } = true) ↔
      finalValue keccakf context s ≤ FixedHash.arith s.work.boundary) ∧
    (FixedHash.arith s.work.boundary < finalValue keccakf context s →
      final (checkSolution (ethashAuxEval keccakf context) now s) t = t.oneFailed now s.midx) := by
  rw [final_checkSolution _ _ h, submitProofAsync_eq]
  by_cases hle : finalValue keccakf context s ≤ FixedHash.arith s.work.boundary
  · rw [if_pos hle]
    refine ⟨iff_of_true ?_ hle, fun hlt => absurd hle (not_le.2 hlt)⟩
    exact ⟨_, rfl, (verifies_evaluated keccakf context s).2 hle⟩
  · rw [if_neg hle]
    refine ⟨iff_of_false ?_ hle, fun _ => rfl⟩
    rintro ⟨mixHash, hfound, -⟩
    have hlength := congrArg (fun t => t.found.length) hfound
    simp [FarmAccounts.oneFailed] at hlength

end Verify

/-- A farm of one miner that reports a solution for a boundary of all ones. -/
theorem verifiable_solutions_forwarded_one :
    ∃ mixHash, final (checkSolution (ethashAuxEval id fun _ => ⟨1, fun _ _ => 0⟩) 0
        ⟨7, fun _ => 0, { boundary := fun _ => 255 }, 0⟩) ⟨⟨0, 0, 0, 0, 0, 0⟩, [⟨0, 0, 0, 0, 0, 0⟩], []⟩ =
      ⟨⟨0, 0, 0, 0, 0, 0⟩, [⟨0, 0, 0, 0, 0, 0⟩], [⟨7, mixHash, { boundary := fun _ => 255 }, 0⟩]⟩ ∧
      verifies id (fun _ => ⟨1, fun _ _ => 0⟩) ⟨7, mixHash, { boundary := fun _ => 255 }, 0⟩ = true := by
  have hall := (verifiable_solutions_forwarded id (fun _ => ⟨1, fun _ _ => 0⟩) 0
    ⟨7, fun _ => 0, { boundary := fun _ => 255 }, 0⟩ ⟨⟨0, 0, 0, 0, 0, 0⟩, [⟨0, 0, 0, 0, 0, 0⟩], []⟩
    (by decide)).1
  refine hall.2 ?_
  have hlt := beValue_lt (bytes (ethashHash id ⟨1, fun _ _ => 0⟩ (hash256FromBytes fun _ => 0) 7).finalHash)
  rw [← ofFn_h256OfHash, List.length_ofFn, ofFn_h256OfHash] at hlt
  have hboundary : FixedHash.arith (fun _ => 255 : H256) = 256 ^ 32 - 1 := by decide +kernel
  exact hboundary.symm ▸ Nat.le_sub_one_of_lt hlt

end Pool
end EtcMiner
