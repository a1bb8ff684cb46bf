/-
# The work handler of the pool manager

The `onWorkReceived` handler of `PoolManager::setClientHandlers`
(`libpool/PoolManager.cpp`).  A job that starts a new epoch and does not carry its
epoch number gets one here, from the block number if the job has one and from the
seed otherwise.

The two derivations do not meet.  From the activation block on the chain publishes
the seed of an epoch of 60000 blocks, which is the seed of every second epoch of
30000 blocks, while the handler divides the block number by 30000 throughout.  The
DAGs agree exactly for the blocks before the activation and, after it, for the
blocks in the first half of their epoch as far as the search reaches
(`dag_of_block_eq_dag_of_seed_iff`).
-/

import EtcMiner.Common.CommonData
import EtcMiner.Eth.WorkPackage
import EtcMiner.Ethash.Epoch

namespace EtcMiner
namespace Pool

open Common Eth Ethash

/-- What the handler keeps between jobs: `m_currentWp`, `m_epochChanges`, and the
cache of `find_epoch_number` in the thread it runs in. -/
structure WorkHandler (keccak256 : Hash 8 → Hash 8) where
  currentWp : WorkPackage
  epochChanges : ℕ
  cache : SeedCache keccak256

variable {keccak256 : Hash 8 → Hash 8}

/-- `newEpoch`: in EthereumStratum/2.0.0 (mode 3) the epoch number is set in the
session, in the other modes the seed tells. -/
def newEpoch (stratumMode : ℕ) (currentWp wp : WorkPackage) : Bool :=
  if currentWp.epoch = -1 then true
  else if stratumMode = 3 then decide (wp.epoch ≠ currentWp.epoch)
  else decide (wp.seed ≠ currentWp.seed)

/-- The epoch of a job that carries none, with the cache the search leaves. -/
def epochOf (cache : SeedCache keccak256) (wp : WorkPackage) : ℤ × SeedCache keccak256 :=
  if wp.block ≥ 0 then (wp.block.tdiv 30000, cache)
  else findEpochNumber cache (hash256FromBytes wp.seed)

/-- The handler.  The package returned is the one given to `Farm::setWork`; there is
none for a job without header. -/
def onWorkReceived (stratumMode : ℕ) (s : WorkHandler keccak256) (wp : WorkPackage) :
    WorkHandler keccak256 × Option WorkPackage :=
  if wp.IsVoid then (s, none)
  else
    let (epoch, cache) :=
      if newEpoch stratumMode s.currentWp wp then
        if wp.epoch = -1 then epochOf s.cache wp else (wp.epoch, s.cache)
      else (s.currentWp.epoch, s.cache)
    let currentWp := { wp with epoch := epoch }
    let epochChanges :=
      if newEpoch stratumMode s.currentWp wp then s.epochChanges + 1 else s.epochChanges
    (⟨currentWp, epochChanges, cache⟩, some currentWp)

/-- `showMiningAt()`, which throws when the boundary of the job is zero. -/
def showMiningAt (currentWp : WorkPackage) : Option ℕ :=
  if currentWp.IsVoid then some 0 else getHashesToTarget (FixedHash.hex currentWp.boundary)

/-- The handler shows a job that begins an epoch or has another boundary. -/
def showsMiningAt (stratumMode : ℕ) (currentWp wp : WorkPackage) : Bool :=
  newEpoch stratumMode currentWp wp || decide (wp.boundary ≠ currentWp.boundary)

/-- The handler changes nothing but the epoch of a job. -/
theorem onWorkReceived_eq_some {stratumMode : ℕ} {s : WorkHandler keccak256} {wp w : WorkPackage}
    (h : (onWorkReceived stratumMode s wp).2 = some w) : ∃ epoch, w = { wp with epoch := epoch } := by
  unfold onWorkReceived at h
  split at h
  · exact (nomatch h)
  · exact ⟨_, (Option.some.inj h).symm⟩

/-- A job that makes the handler derive an epoch. -/
structure DerivesEpoch (stratumMode : ℕ) (s : WorkHandler keccak256) (wp : WorkPackage) : Prop where
  header_ne : ¬ wp.IsVoid
  newEpoch_eq : newEpoch stratumMode s.currentWp wp = true
  epoch_eq : wp.epoch = -1

theorem DerivesEpoch.onWorkReceived_epoch {stratumMode : ℕ} {s : WorkHandler keccak256}
    {wp : WorkPackage} (h : DerivesEpoch stratumMode s wp) :
    (onWorkReceived stratumMode s wp).1.currentWp.epoch = (epochOf s.cache wp).1 := by
  rw [onWorkReceived, if_neg h.header_ne, if_pos h.newEpoch_eq, if_pos h.epoch_eq]

/-- The epoch of 30000 blocks whose seed the chain publishes for block `b`: its own
before the activation (`ETCHASH_ACTIVATION_BLOCK`), twice the epoch of 60000 blocks
(`ETCHASH_EPOCH_LENGTH`) from there on. -/
def publishedEpoch (b : ℕ) : ℕ := if b < 11700000 then b / 30000 else 2 * (b / 60000)

/-- The blocks for which the two derivations meet. -/
def DagsAgree (cache : SeedCache keccak256) (b : ℕ) : Prop :=
  b < 11700000 ∨ b / 30000 % 2 = 0 ∧ cache.Reaches (b / 30000)

/-- The DAG of the epoch of 30000 blocks is the published one exactly on these
blocks. -/
theorem createEpochContext_eq_iff {n : ℕ} (hdist : SeedsDistinct keccak256 n)
    (cache : SeedCache keccak256) (hcache : cache.epochNumber + 1 < n) (htries : numTries ≤ n)
    {b : ℕ} (hb : b / 30000 < n) :
    createEpochContext keccak256 (b / 30000 : ℕ) = createEpochContext keccak256
      (findEpochNumber cache (calculateEpochSeed keccak256 (publishedEpoch b))).1 ↔
      DagsAgree cache b := by
  have hk : publishedEpoch b < n := by unfold publishedEpoch; split_ifs <;> omega
  rw [findEpochNumber_eq hdist cache hcache htries hk]
  constructor
  · intro hctx
    -- equal contexts have equal seeds, and the seeds tell the epochs apart
    have hseed := congrFun (congrArg EpochContext.epochSeed hctx) 0
    simp only [createEpochContext] at hseed
    by_cases hbefore : b < 11700000
    · exact Or.inl hbefore
    have hpub : publishedEpoch b = 2 * (b / 60000) := if_neg hbefore
    rw [hpub] at hseed hk
    split_ifs at hseed with hreach
    · have heq := hdist _ hb _ hk hseed
      exact Or.inr ⟨by omega, heq ▸ hreach⟩
    · have hzero := hdist _ hb 0 (by omega) hseed
      omega
  · intro hagree
    have hpub : publishedEpoch b = b / 30000 := by
      unfold publishedEpoch
      rcases hagree with hbefore | ⟨heven, -⟩
      · rw [if_pos hbefore]
      · split_ifs <;> omega
    have hreach : cache.Reaches (b / 30000) := by
      rcases hagree with hbefore | ⟨-, hreach⟩
      · exact Or.inr (Or.inr (by unfold numTries; omega))
      · exact hreach
    rw [hpub, if_pos hreach]

/-- **Where the two derivations of an epoch agree on the DAG.**  Two jobs for block
`b` reach the handler in one state, one with the block number and one with the seed
the chain publishes for it.  The epochs the handler derives have the same item
counts and seed exactly for the blocks before the activation and, after it, for
the blocks of an even epoch of 30000 blocks that the search reaches. -/
theorem dag_of_block_eq_dag_of_seed_iff {n : ℕ} (hdist : SeedsDistinct keccak256 n)
    (s : WorkHandler keccak256) (hcache : s.cache.epochNumber + 1 < n) (htries : numTries ≤ n)
    (b : ℕ) (hb : b / 30000 < n) (stratumMode : ℕ) (byBlock bySeed : WorkPackage)
    (hblock : DerivesEpoch stratumMode s byBlock ∧ byBlock.block = b)
    (hseed : DerivesEpoch stratumMode s bySeed ∧ bySeed.block = -1 ∧
      hash256FromBytes bySeed.seed = calculateEpochSeed keccak256 (publishedEpoch b)) :
    createEpochContext keccak256 (onWorkReceived stratumMode s byBlock).1.currentWp.epoch =
        createEpochContext keccak256 (onWorkReceived stratumMode s bySeed).1.currentWp.epoch ↔
      DagsAgree s.cache b := by
  obtain ⟨hderive, hval⟩ := hblock
  obtain ⟨hderive', hnone, hpub⟩ := hseed
  rw [hderive.onWorkReceived_epoch, hderive'.onWorkReceived_epoch]
  have hepoch : (epochOf s.cache byBlock).1 = (b / 30000 : ℕ) := by
    rw [epochOf, hval, if_pos (by omega)]
    rfl
  have hepoch' : (epochOf s.cache bySeed).1 =
      (findEpochNumber s.cache (calculateEpochSeed keccak256 (publishedEpoch b))).1 := by
    rw [epochOf, hnone, if_neg (by omega), hpub]
  rw [hepoch, hepoch']
  exact createEpochContext_eq_iff hdist s.cache hcache htries hb

/-- A stand-in for Keccak whose seeds count the epochs in their first word. -/
def countingKeccak (h : Hash 8) : Hash 8 := fun i => if i = 0 then h 0 + 1 else h i

theorem calculateEpochSeed_countingKeccak (n : ℕ) :
    calculateEpochSeed countingKeccak n = fun i => if i = 0 then BitVec.ofNat 32 n else 0 := by
  induction n with
  | zero =>
    funext i
    simp [calculateEpochSeed]
  | succ n ih =>
    rw [calculateEpochSeed_succ, ih]
    funext i
    simp only [countingKeccak]
    split_ifs
    · exact (BitVec.ofNat_add n 1).symm
    · rfl

theorem countingKeccak_seedsDistinct : SeedsDistinct countingKeccak (2 ^ 32) := by
  intro i hi j hj h
  have hword : BitVec.ofNat 32 i = BitVec.ofNat 32 j := by
    simpa [calculateEpochSeed_countingKeccak] using h
  have hval := congrArg BitVec.toNat hword
  rwa [BitVec.toNat_ofNat, BitVec.toNat_ofNat, Nat.mod_eq_of_lt hi, Nat.mod_eq_of_lt hj] at hval

/-- The handler before its first job. -/
def WorkHandler.init : WorkHandler countingKeccak := ⟨{}, 0, SeedCache.init _⟩

/-- A job for block `11730000`, by its block number. -/
def jobByBlock : WorkPackage := { header := fun _ => 1, block := 11730000 }

/-- A job for block `11730000`, by the published seed: that of epoch `390`. -/
def jobBySeed : WorkPackage :=
  { header := fun _ => 1, seed := fun i => if i = 0 then 0x86 else if i = 1 then 0x01 else 0 }

theorem jobByBlock_derivesEpoch : DerivesEpoch 1 WorkHandler.init jobByBlock :=
  ⟨fun h => absurd (congrFun h 0) (by decide), rfl, rfl⟩

theorem jobBySeed_derivesEpoch : DerivesEpoch 1 WorkHandler.init jobBySeed :=
  ⟨fun h => absurd (congrFun h 0) (by decide), rfl, rfl⟩

theorem jobBySeed_seed :
    hash256FromBytes jobBySeed.seed = calculateEpochSeed countingKeccak (publishedEpoch 11730000) := by
  rw [calculateEpochSeed_countingKeccak]
  decide

/-- At block `11730000` the derivations differ: the block number gives epoch `391`
and its seed, the published seed epoch `390`. -/
theorem dag_of_block_ne_dag_of_seed :
    (onWorkReceived 1 WorkHandler.init jobByBlock).1.currentWp.epoch = 391 ∧
      createEpochContext countingKeccak (onWorkReceived 1 WorkHandler.init jobByBlock).1.currentWp.epoch ≠
        createEpochContext countingKeccak (onWorkReceived 1 WorkHandler.init jobBySeed).1.currentWp.epoch := by
  have hnot : ¬ DagsAgree WorkHandler.init.cache 11730000 := by
    rintro (h | ⟨h, -⟩) <;> omega
  rw [jobByBlock_derivesEpoch.onWorkReceived_epoch, jobBySeed_derivesEpoch.onWorkReceived_epoch]
  have hbySeed : (epochOf WorkHandler.init.cache jobBySeed).1 = (findEpochNumber WorkHandler.init.cache
      (calculateEpochSeed countingKeccak (publishedEpoch 11730000))).1 := by
    rw [epochOf, if_neg (by decide), jobBySeed_seed]
  refine ⟨rfl, fun h => hnot ?_⟩
  rw [hbySeed] at h
  exact (createEpochContext_eq_iff countingKeccak_seedsDistinct _ (by decide) (by decide)
    (by decide)).1 h

/-- The hypotheses of `dag_of_block_eq_dag_of_seed_iff` hold of these two jobs. -/
theorem dag_of_block_eq_dag_of_seed_iff_init :
    createEpochContext countingKeccak (onWorkReceived 1 WorkHandler.init jobByBlock).1.currentWp.epoch =
        createEpochContext countingKeccak (onWorkReceived 1 WorkHandler.init jobBySeed).1.currentWp.epoch ↔
      DagsAgree WorkHandler.init.cache 11730000 :=
  dag_of_block_eq_dag_of_seed_iff countingKeccak_seedsDistinct WorkHandler.init (by decide) (by decide)
    11730000 (by decide) 1 jobByBlock jobBySeed ⟨jobByBlock_derivesEpoch, rfl⟩
    ⟨jobBySeed_derivesEpoch, rfl, jobBySeed_seed⟩

end Pool
end EtcMiner
