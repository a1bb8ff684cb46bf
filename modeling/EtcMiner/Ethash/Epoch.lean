/-
# Epochs: item counts, seeds and the search for an epoch number

`ethash_calculate_epoch_seed`, `ethash_calculate_*_num_items`,
`create_epoch_context` and `find_epoch_number` in `ethash/lib/ethash/ethash.cpp`.
Epoch numbers and item counts are C `int`s, and are numbers here without the bounds of an
`int`.  The computations of `create_epoch_context` stay within them exactly for the epochs
below 65280 (`usableEpoch_iff`).

The thread-local cache of `find_epoch_number` always holds a link of the seed
chain, which `SeedCache` carries as a field.  Where the first words of the chain
are distinct the search inverts the chain up to `num_tries` and around the cached
epoch, and nowhere else (`findEpochNumber_eq`).
-/

import EtcMiner.Ethash.Hash
import EtcMiner.Ethash.Primes

namespace EtcMiner
namespace Ethash

open Lib

/-- `ethash_calculate_light_cache_num_items`. -/
def calculateLightCacheNumItems (epochNumber : ℤ) : ℕ :=
  findLargestPrime (2 ^ 24 / 64 + epochNumber * (2 ^ 17 / 64))

/-- `ethash_calculate_full_dataset_num_items`. -/
def calculateFullDatasetNumItems (epochNumber : ℤ) : ℕ :=
  findLargestPrime (2 ^ 30 / 128 + epochNumber * (2 ^ 23 / 128))

/-- `ecip_1099_activation_epoch`. -/
def ecip1099ActivationEpoch : ℤ := 390

/-- `num_tries` of `find_epoch_number`. -/
def numTries : ℕ := 30000

/-- What `create_epoch_context` makes the light cache and the dataset from. -/
structure EpochContext where
  lightCacheNumItems : ℕ
  fullDatasetNumItems : ℕ
  epochSeed : Hash 8

/-- `epoch_ecip1099`. -/
def epochEcip1099 (epochNumber : ℤ) : ℤ :=
  if epochNumber ≥ ecip1099ActivationEpoch then epochNumber.tdiv 2 else epochNumber

/-- A value of a C `int`. -/
def FitsInt (x : ℤ) : Prop := -2 ^ 31 ≤ x ∧ x < 2 ^ 31

/-- An epoch for which the products and sums of `create_epoch_context` are `int`s. -/
structure UsableEpoch (epochNumber : ℤ) : Prop where
  nonneg : 0 ≤ epochNumber
  lightCacheGrowth : FitsInt (epochEcip1099 epochNumber * (2 ^ 17 / 64))
  lightCacheUpperBound : FitsInt (2 ^ 24 / 64 + epochEcip1099 epochNumber * (2 ^ 17 / 64))
  fullDatasetGrowth : FitsInt (epochEcip1099 epochNumber * (2 ^ 23 / 128))
  fullDatasetUpperBound : FitsInt (2 ^ 30 / 128 + epochEcip1099 epochNumber * (2 ^ 23 / 128))

/-- **The epochs without overflow.**  The dataset is what bounds them. -/
theorem usableEpoch_iff (epochNumber : ℤ) : UsableEpoch epochNumber ↔ 0 ≤ epochNumber ∧ epochNumber < 65280 := by
  have hhalf (h : 0 ≤ epochNumber) : epochEcip1099 epochNumber =
      if 390 ≤ epochNumber then epochNumber / 2 else epochNumber := by
    rw [epochEcip1099, Int.tdiv_eq_ediv_of_nonneg h]
    rfl
  constructor
  · rintro ⟨hnonneg, -, -, -, -, hupper⟩
    rw [hhalf hnonneg] at hupper
    split_ifs at hupper <;> omega
  · rintro ⟨hnonneg, hlt⟩
    have hbounds : 0 ≤ epochEcip1099 epochNumber ∧ epochEcip1099 epochNumber < 32640 := by
      rw [hhalf hnonneg]
      split_ifs <;> omega
    refine ⟨hnonneg, ?_, ?_, ?_, ?_⟩ <;> unfold FitsInt <;> omega

section Chain

variable (keccak256 : Hash 8 → Hash 8)

/-- `ethash_calculate_epoch_seed`. -/
def calculateEpochSeed (epochNumber : ℤ) : Hash 8 :=
  forLoop (fun _ seed => keccak256 seed) epochNumber.toNat fun _ => 0

/-- `create_epoch_context`: the item counts of the halved epoch from the activation
on, the seed of the epoch itself. -/
def createEpochContext (epochNumber : ℤ) : EpochContext :=
  let epochEcip1099 :=
    if epochNumber ≥ ecip1099ActivationEpoch then epochNumber.tdiv 2 else epochNumber
  ⟨calculateLightCacheNumItems epochEcip1099, calculateFullDatasetNumItems epochEcip1099,
    calculateEpochSeed keccak256 epochNumber⟩

/-- An epoch and its seed, as `find_epoch_number` keeps them while it walks the chain
and between its calls (`cached_epoch_number`, `cached_seed`). -/
structure SeedCache where
  epochNumber : ℕ
  seed : Hash 8
  seed_eq : seed = calculateEpochSeed keccak256 epochNumber

/-- The start of the chain, and the cache of a thread that has not searched yet. -/
def SeedCache.init : SeedCache keccak256 := ⟨0, fun _ => 0, rfl⟩

variable {keccak256}

theorem calculateEpochSeed_succ (n : ℕ) :
    calculateEpochSeed keccak256 ((n + 1 : ℕ) : ℤ) = keccak256 (calculateEpochSeed keccak256 n) := rfl

/-- `s = keccak256(s)`. -/
def SeedCache.next (c : SeedCache keccak256) : SeedCache keccak256 :=
  ⟨c.epochNumber + 1, keccak256 c.seed, by rw [c.seed_eq, calculateEpochSeed_succ]⟩

/-- The search loop of `find_epoch_number`, with `n` tries left. -/
def searchSeed (seedPart : BitVec 32) : ℕ → SeedCache keccak256 → Option (SeedCache keccak256)
  | 0, _ => none
  | n + 1, c => if c.seed 0 = seedPart then some c else searchSeed seedPart n c.next

/-- `find_epoch_number`, with the cache it leaves. -/
def findEpochNumber (cache : SeedCache keccak256) (seed : Hash 8) : ℤ × SeedCache keccak256 :=
  if cache.seed 0 = seed 0 then (cache.epochNumber, cache)
  else if cache.next.seed 0 = seed 0 then (cache.next.epochNumber, cache.next)
  else match searchSeed (seed 0) numTries (SeedCache.init keccak256) with
    | some c => (c.epochNumber, c)
    | none => (-1, cache)

/-- The first words of the first `n` seeds are pairwise distinct. -/
def SeedsDistinct (keccak256 : Hash 8 → Hash 8) (n : ℕ) : Prop :=
  ∀ i < n, ∀ j < n, calculateEpochSeed keccak256 i 0 = calculateEpochSeed keccak256 j 0 → i = j

/-- Among distinct seeds a link of the chain is known by its first word. -/
theorem SeedsDistinct.seed_eq_iff {n : ℕ} (hdist : SeedsDistinct keccak256 n) {c : SeedCache keccak256}
    (hc : c.epochNumber < n) {k : ℕ} (hk : k < n) :
    c.seed 0 = calculateEpochSeed keccak256 k 0 ↔ c.epochNumber = k := by
  rw [c.seed_eq]
  exact ⟨hdist _ hc _ hk, fun h => by rw [h]⟩

/-- The search finds epoch `k` if its tries reach it, and nothing otherwise. -/
theorem searchSeed_epochNumber {n : ℕ} (hdist : SeedsDistinct keccak256 n) {k : ℕ} (hk : k < n)
    {tries : ℕ} {c : SeedCache keccak256} (hc : c.epochNumber ≤ k) (htries : c.epochNumber + tries ≤ n) :
    (searchSeed (calculateEpochSeed keccak256 k 0) tries c).map SeedCache.epochNumber =
      if k < c.epochNumber + tries then some k else none := by
  induction tries generalizing c with
  | zero => rw [if_neg (by omega)]; rfl
  | succ tries ih =>
    rw [searchSeed]
    simp only [hdist.seed_eq_iff (c := c) (by omega) hk]
    split_ifs with hmatch hlt hlt
    · simp [hmatch]
    · omega
    · rw [ih (c := c.next) (by simp only [SeedCache.next]; omega) (by simp only [SeedCache.next]; omega),
        if_pos (by simp only [SeedCache.next]; omega)]
    · rw [ih (c := c.next) (by simp only [SeedCache.next]; omega) (by simp only [SeedCache.next]; omega),
        if_neg (by simp only [SeedCache.next]; omega)]

/-- An epoch that `find_epoch_number` can find: the cached one, the one after it,
and those of the search. -/
def SeedCache.Reaches (cache : SeedCache keccak256) (k : ℕ) : Prop :=
  k = cache.epochNumber ∨ k = cache.epochNumber + 1 ∨ k < numTries

instance (cache : SeedCache keccak256) (k : ℕ) : Decidable (cache.Reaches k) :=
  inferInstanceAs (Decidable (_ ∨ _ ∨ _))

/-- **`find_epoch_number` inverts the seed chain** on the epochs it reaches, and
answers `-1` on the others. -/
theorem findEpochNumber_eq {n : ℕ} (hdist : SeedsDistinct keccak256 n) (cache : SeedCache keccak256)
    (hcache : cache.epochNumber + 1 < n) (htries : numTries ≤ n) {k : ℕ} (hk : k < n) :
    (findEpochNumber cache (calculateEpochSeed keccak256 k)).1 =
      if cache.Reaches k then (k : ℤ) else -1 := by
  have hcached := hdist.seed_eq_iff (c := cache) (by omega) hk
  have hnext := hdist.seed_eq_iff (c := cache.next) hcache hk
  have hinit : (SeedCache.init keccak256).epochNumber + numTries = numTries := Nat.zero_add _
  have hsearch := searchSeed_epochNumber hdist hk (c := SeedCache.init keccak256) (Nat.zero_le k)
    (hinit.le.trans htries)
  rw [hinit] at hsearch
  unfold findEpochNumber
  simp only [hcached, hnext]
  by_cases h₁ : cache.epochNumber = k
  · rw [if_pos h₁, if_pos (show cache.Reaches k from Or.inl h₁.symm)]
    exact congrArg _ h₁
  rw [if_neg h₁]
  by_cases h₂ : cache.next.epochNumber = k
  · rw [if_pos h₂, if_pos (show cache.Reaches k from Or.inr (Or.inl h₂.symm))]
    exact congrArg _ h₂
  rw [if_neg h₂]
  have hreach : cache.Reaches k ↔ k < numTries := by
    have : cache.epochNumber + 1 ≠ k := h₂
    unfold SeedCache.Reaches
    omega
  simp only [hreach]
  generalize searchSeed (calculateEpochSeed keccak256 k 0) numTries (SeedCache.init keccak256) = r
    at hsearch ⊢
  split_ifs at hsearch ⊢ with hlt
  · obtain ⟨c, rfl, hc⟩ := Option.map_eq_some_iff.1 hsearch
    exact congrArg _ hc
  · rw [Option.map_eq_none_iff.1 hsearch]

end Chain

end Ethash
end EtcMiner
