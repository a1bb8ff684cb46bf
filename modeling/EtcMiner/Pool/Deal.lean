/-
# From the pool to a miner and back

A job goes from the stratum client through the handler of the pool manager to
`Farm::setWork`, which deals it out to the miners; a solution goes from the miner through
`Farm::submitProofAsync` (`libeth/Farm.cpp`), which drops it if it does not hash below the
boundary, to `submitSolution`.

A `Deal` is one call of `Farm::setWork`, and `Hand` remembers which deals the packages in
the hands of a miner come from, under any interleaving of `setWork` and `pause`
(`Holds`).  The package and the hand are all a search starts from, so the work loops of
both kinds of miners are followed with it.

What a miner reports lies some number of nonces after the start nonce of a deal, and the
pool can rebuild it exactly when that stays within the extranonce
(`submittedRebuilds_found_iff`).

`EthashAux::eval` is a parameter.
-/

import EtcMiner.Eth.Miner
import EtcMiner.Eth.SetWork
import EtcMiner.Pool.WorkHandler
import EtcMiner.Stratum.Extranonce

namespace EtcMiner
namespace Pool

open Common Eth Lib Stratum

/-- `work` is given to the farm for a job of the modes 2 and 3 that is received while the
extranonce `x` is in force. -/
def Received (x : Extranonce) (work : WorkPackage) : Prop :=
  ∃ (rt : Runtime) (c : Client) (m : Json) (w : WorkPackage),
    (c.conn.stratumMode = ETHEREUMSTRATUM ∨ c.conn.stratumMode = ETHEREUMSTRATUM2) ∧
    InForce x c ∧ describe rt c m = some w ∧
    ∃ (keccak256 : Ethash.Hash 8 → Ethash.Hash 8) (h : WorkHandler keccak256),
      (onWorkReceived c.conn.stratumMode h w).2 = some work

/-- The handler of the pool manager keeps the extranonce. -/
theorem Received.hasExtranonce {x : Extranonce} {work : WorkPackage} (h : Received x work) :
    HasExtranonce x work := by
  obtain ⟨rt, c, m, w, hmode, hforce, hdesc, keccak256, handler, hwork⟩ := h
  obtain ⟨hstart, hsize⟩ := hforce.describe hmode hdesc
  obtain ⟨epoch, rfl⟩ := onWorkReceived_eq_some hwork
  exact ⟨hstart, hsize⟩

/-- The result of `EthashAux::eval`: the mix hash and the value to compare. -/
abbrev Eval := ℤ → H256 → BitVec 64 → H256 × H256

/-- `Farm::submitProofAsync`: the solution passed to `m_onSolutionFound`, if it is. -/
def submitProofAsync (eval : Eval) (s : Solution) : Option Solution :=
  let r := eval s.work.epoch s.work.header s.nonce
  if FixedHash.gt r.2 s.work.boundary then none else some { s with mixHash := r.1 }

theorem submitProofAsync_eq_some {eval : Eval} {s s' : Solution}
    (h : submitProofAsync eval s = some s') : s'.nonce = s.nonce ∧ s'.work = s.work := by
  simp only [submitProofAsync] at h
  split_ifs at h
  cases h
  exact ⟨rfl, rfl⟩

/-- One call of `Farm::setWork`: the user nonce in force, the draw of the random engine and
the package. -/
structure Deal where
  nonce : UserNonce
  random : BitVec 64
  newWp : WorkPackage

/-- The place of a miner in the farm. -/
structure Place where
  undef : BitVec 64 → ℕ → BitVec 64
  minerCount : ℕ
  index : ℕ
  index_lt : index < minerCount

/-- The package the miner gets. -/
def Place.dealt (p : Place) (D : Deal) : WorkPackage :=
  minerWork p.undef D.nonce D.random p.minerCount D.newWp p.index

/-- It is the one `Farm::setWork` gives to the miner at this place. -/
theorem Place.getElem?_setWork (p : Place) (D : Deal) :
    (setWork p.undef D.nonce D.random p.minerCount D.newWp)[p.index]? = some (p.dealt D) := by
  rw [setWork_eq, List.getElem?_map, List.getElem?_range p.index_lt]
  rfl

/-- The solution a miner reports `d` nonces after `start`, for the package `work`. -/
def found (work : WorkPackage) (index : ℕ) (start : BitVec 64) (d : ℕ) : Solution :=
  ⟨start + BitVec.ofNat 64 d, fun _ => 0, work, index⟩

/-- The nonce `d` nonces after `start` has the extranonce as its high digits. -/
def KeepsExtranonce (x : Extranonce) (start : BitVec 64) (d : ℕ) : Prop :=
  (start - x.word + BitVec.ofNat 64 d).toNat < 2 ^ x.bits

/-- The pool can rebuild the nonce of the solution, if the farm submits it. -/
def SubmittedRebuilds (eval : Eval) (x : Extranonce) (solution : Solution) : Prop :=
  ∀ solution', submitProofAsync eval solution = some solution' → Rebuilds x.digits solution'

/-- **When the pool can rebuild what a miner reports.** -/
theorem submittedRebuilds_found_iff {eval : Eval} {x : Extranonce} {work : WorkPackage} {index : ℕ}
    {start : BitVec 64} {d : ℕ} (hsize : work.exSizeBytes = BitVec.ofNat 16 x.digits.length) :
    SubmittedRebuilds eval x (found work index start d) ↔
      ((submitProofAsync eval (found work index start d)).isSome → KeepsExtranonce x start d) := by
  have hrebuilds {sol : Solution} (hsol : submitProofAsync eval (found work index start d) = some sol) :
      Rebuilds x.digits sol ↔ KeepsExtranonce x start d := by
    obtain ⟨hnonce, hwork⟩ := submitProofAsync_eq_some hsol
    have hdist : start + BitVec.ofNat 64 d - x.word = start - x.word + BitVec.ofNat 64 d := by ring
    rw [rebuilds_iff (by rw [hwork]; exact hsize), mem_arc, hnonce, found, hdist]
    exact Iff.rfl
  constructor
  · intro h hsome
    obtain ⟨sol, hsol⟩ := Option.isSome_iff_exists.1 hsome
    exact (hrebuilds hsol).1 (h sol hsol)
  · intro h sol hsol
    exact (hrebuilds hsol).2 (h (Option.isSome_iff_exists.2 ⟨sol, hsol⟩))

/-- The deals that the package of a miner and the one being set come from. -/
structure Hand where
  work : Option Deal := none
  setting : Option Deal := none

/-- `Miner::setWork` starts with the deal `D`. -/
def Hand.setWorkBegin (m : Miner) (h : Hand) (D : Deal) : Hand :=
  match m.setting with
  | none => { h with setting := some D }
  | some _ => h

/-- The other calls. -/
def Hand.call (m : Miner) (h : Hand) : MinerCall → Hand
  | .setWorkEnd =>
    match m.setting with
    | some (_, false) => { h with work := h.setting }
    | _ => h
  | _ => h

/-- `h` is right about the packages of `m`. -/
structure Holds (p : Place) (m : Miner) (h : Hand) : Prop where
  work : ∀ D, h.work = some D → m.work.startNonce = (p.dealt D).startNonce ∧
    m.work.exSizeBytes = D.newWp.exSizeBytes
  isVoid : h.work = none → m.work.IsVoid
  setting : ∀ w paused, m.setting = some (w, paused) → ∃ D, h.setting = some D ∧ w = p.dealt D

section Holds

variable {p : Place} {m : Miner} {h : Hand}

theorem holds_init : Holds p {} {} :=
  ⟨fun _ hD => (nomatch hD), fun _ => rfl, fun _ _ hw => (nomatch hw)⟩

theorem Holds.setWorkBegin (hold : Holds p m h) (D : Deal) :
    Holds p (m.call (.setWorkBegin (p.dealt D))) (h.setWorkBegin m D) := by
  unfold Miner.call Hand.setWorkBegin
  cases hset : m.setting with
  | some s => exact hold
  | none =>
    refine ⟨hold.work, hold.isVoid, ?_⟩
    rintro w paused ⟨⟩
    exact ⟨D, rfl, rfl⟩

/-- Voiding a package keeps its start nonce. -/
theorem Holds.voided (hold : Holds p m h) :
    (∀ D, h.work = some D → m.work.voided.startNonce = (p.dealt D).startNonce ∧
      m.work.voided.exSizeBytes = D.newWp.exSizeBytes) ∧ m.work.voided.IsVoid :=
  ⟨hold.work, rfl⟩

/-- **The calls of other threads keep the hand right.** -/
theorem Holds.call (hold : Holds p m h) {c : MinerCall} (hc : ∀ w, c ≠ .setWorkBegin w) :
    Holds p (m.call c) (h.call m c) := by
  cases c with
  | setWorkBegin w => exact absurd rfl (hc w)
  | setWorkEnd =>
    unfold Miner.call Hand.call
    cases hset : m.setting with
    | none => simpa only [hset] using hold
    | some s =>
      obtain ⟨w, paused⟩ := s
      obtain ⟨D, hD, rfl⟩ := hold.setting w paused hset
      cases paused with
      | true => exact ⟨hold.voided.1, fun _ => hold.voided.2, fun _ _ hw => (nomatch hw)⟩
      | false =>
        refine ⟨?_, fun hnone => absurd (hD.symm.trans hnone) (by simp), fun _ _ hw => (nomatch hw)⟩
        intro D' hD'
        cases hD.symm.trans hD'
        exact ⟨rfl, rfl⟩
  | pause what => exact ⟨hold.voided.1, fun _ => hold.voided.2, hold.setting⟩
  | resume what => exact ⟨hold.work, hold.isVoid, hold.setting⟩

/-- A step that makes such a call, or none. -/
theorem Holds.callOf (hold : Holds p m h) {o : Option MinerCall}
    (ho : ∀ w, o ≠ some (.setWorkBegin w)) : Holds p (o.elim m m.call) (o.elim h (h.call m)) := by
  cases o with
  | none => exact hold
  | some c => exact hold.call fun w hw => ho w (congrArg some hw)

end Holds

end Pool
end EtcMiner
