/-
# The light cache

`build_light_cache` in `ethash/lib/ethash/ethash.cpp`.  The items are first a chain of hashes from
the seed; then three rounds rewrite them in place, each item from one that it picks itself and from
the one before it, which a round has rewritten already except for the first.

The rounds are the recurrence of the Ethash cache, with every index inside of the array
(`buildLightCache_spec`).
-/

import EtcMiner.Ethash.DatasetItem
import EtcMiner.Lib.InPlace

namespace EtcMiner
namespace Ethash

open Lib

/-- `light_cache_rounds`. -/
def lightCacheRounds : ℕ := 3

/-- `bitwise_xor`. -/
def bitwiseXor (x y : Hash 16) : Hash 16 := fun j => x j ^^^ y j

section Build

variable (hashFn : List Byte → Hash 16) (numItems : ℕ)

/-- `item = hash_fn(item.bytes, sizeof(item)); cache[i + 1] = item`. -/
def addItem (i : ℕ) (s : Hash 16 × (ℕ → Hash 16)) : Hash 16 × (ℕ → Hash 16) :=
  (hashFn (bytes s.1), Function.update s.2 (i + 1) (hashFn (bytes s.1)))

/-- The chain of hashes, with the last `item`. -/
def chainItems (seed : Hash 8) (cache : ℕ → Hash 16) : Hash 16 × (ℕ → Hash 16) :=
  forLoop (addItem hashFn) (numItems - 1) (hashFn (bytes seed), Function.update cache 0 (hashFn (bytes seed)))

/-- The value that a round gives item `i`: `v` is its first word and `w` the index before it, both
modulo `index_limit`. -/
def mixItem (i : ℕ) (cache : ℕ → Hash 16) : Hash 16 :=
  let indexLimit := BitVec.ofNat 32 numItems
  let v := cache i 0 % indexLimit
  let w := BitVec.ofInt 32 ((numItems : ℤ) + ((i : ℤ) - 1)) % indexLimit
  hashFn (bytes (bitwiseXor (cache v.toNat) (cache w.toNat)))

/-- `build_light_cache` on the array `cache`. -/
def buildLightCache (seed : Hash 8) (cache : ℕ → Hash 16) : ℕ → Hash 16 :=
  forLoop (fun _ cache => forLoop (fun i cache => Function.update cache i (mixItem hashFn numItems i cache)) numItems cache)
    lightCacheRounds (chainItems hashFn numItems seed cache).2

/-- The array after some of the rounds. -/
def afterRounds (seed : Hash 8) (cache : ℕ → Hash 16) (q : ℕ) : ℕ → Hash 16 :=
  forLoop (fun _ cache => sweep (mixItem hashFn numItems) cache numItems) q (chainItems hashFn numItems seed cache).2

end Build

/-- The rounds of the Ethash cache of `numItems` items: `rounds q i` is item `i` after `q` rounds. -/
structure CacheRounds (hashFn : List Byte → Hash 16) (numItems : ℕ) (seed : Hash 8) (rounds : ℕ → ℕ → Hash 16) : Prop where
  first : rounds 0 0 = hashFn (bytes seed)
  chain : ∀ i, i + 1 < numItems → rounds 0 (i + 1) = hashFn (bytes (rounds 0 i))
  mixed : ∀ q, ∀ i < numItems, rounds (q + 1) i = hashFn (bytes (bitwiseXor
    (halfway (rounds (q + 1)) (rounds q) i ((rounds q i 0).toNat % numItems))
    (halfway (rounds (q + 1)) (rounds q) i ((i + numItems - 1) % numItems))))

section Spec

variable {hashFn : List Byte → Hash 16} {numItems : ℕ}

/-- The two items that item `i` is made from, within the bounds of an `int`. -/
theorem mixItem_eq (hle : numItems ≤ 2 ^ 30) {i : ℕ} (hi : i < numItems) (cache : ℕ → Hash 16) :
    mixItem hashFn numItems i cache =
      hashFn (bytes (bitwiseXor (cache ((cache i 0).toNat % numItems)) (cache ((i + numItems - 1) % numItems)))) := by
  have hlimit : (BitVec.ofNat 32 numItems).toNat = numItems := by
    rw [BitVec.toNat_ofNat]
    omega
  have hw : (BitVec.ofInt 32 ((numItems : ℤ) + ((i : ℤ) - 1))).toNat = i + numItems - 1 := by
    rw [BitVec.toNat_ofInt]
    omega
  simp only [mixItem, BitVec.toNat_umod, hlimit, hw]

/-- The array when `n` items have been added to the first. -/
structure Chained (hashFn : List Byte → Hash 16) (seed : Hash 8) (cache : ℕ → Hash 16) (n : ℕ)
    (s : Hash 16 × (ℕ → Hash 16)) : Prop where
  last : s.2 n = s.1
  first : s.2 0 = hashFn (bytes seed)
  chain : ∀ i < n, s.2 (i + 1) = hashFn (bytes (s.2 i))
  rest : ∀ i, n < i → s.2 i = cache i

theorem chainItems_chained (seed : Hash 8) (cache : ℕ → Hash 16) :
    Chained hashFn seed cache (numItems - 1) (chainItems hashFn numItems seed cache) := by
  refine forLoop_inv (Chained hashFn seed cache) ?_ ?_
  · refine ⟨by simp, by simp, fun i hi => absurd hi (Nat.not_lt_zero i), fun i hi => ?_⟩
    exact Function.update_of_ne (by omega) _ _
  · intro n _ s h
    have hold {i : ℕ} (hi : i ≠ n + 1) : (addItem hashFn n s).2 i = s.2 i := Function.update_of_ne hi _ _
    have hnew : (addItem hashFn n s).2 (n + 1) = hashFn (bytes s.1) := Function.update_self _ _ _
    refine ⟨hnew, ?_, fun i hi => ?_, fun i hi => ?_⟩
    · rw [hold (by omega), h.first]
    · obtain rfl | hlt : i = n ∨ i < n := by omega
      · rw [hnew, hold (Nat.ne_of_lt hi), h.last]
      · rw [hold (by omega), hold (by omega), h.chain i hlt]
    · rw [hold (by omega), h.rest i (by omega)]

/-- The rounds of the code are rounds of the cache. -/
theorem afterRounds_cacheRounds (hle : numItems ≤ 2 ^ 30) (seed : Hash 8) (cache : ℕ → Hash 16) :
    CacheRounds hashFn numItems seed (afterRounds hashFn numItems seed cache) := by
  have hchained : Chained hashFn seed cache (numItems - 1) (chainItems hashFn numItems seed cache) :=
    chainItems_chained seed cache
  refine ⟨hchained.first, fun i hi => hchained.chain i (by omega), fun q i hi => ?_⟩
  have hround : afterRounds hashFn numItems seed cache (q + 1) =
      sweep (mixItem hashFn numItems) (afterRounds hashFn numItems seed cache q) numItems := rfl
  have hself : halfway (sweep (mixItem hashFn numItems) (afterRounds hashFn numItems seed cache q) numItems)
      (afterRounds hashFn numItems seed cache q) i i = afterRounds hashFn numItems seed cache q i :=
    if_neg (lt_irrefl i)
  rw [hround, sweep_apply _ _ hi, mixItem_eq hle hi, hself]

/-- A round looks at items of the cache only. -/
theorem mixItem_local (hle : numItems ≤ 2 ^ 30) {i : ℕ} (hi : i < numItems) {x y : ℕ → Hash 16}
    (h : ∀ j < numItems, x j = y j) : mixItem hashFn numItems i x = mixItem hashFn numItems i y := by
  have hpos : 0 < numItems := by omega
  rw [mixItem_eq hle hi, mixItem_eq hle hi, h i hi, h _ (Nat.mod_lt _ hpos), h _ (Nat.mod_lt _ hpos)]

/-- There is one cache. -/
theorem CacheRounds.eq_afterRounds (hle : numItems ≤ 2 ^ 30) {seed : Hash 8} (cache : ℕ → Hash 16)
    {rounds : ℕ → ℕ → Hash 16} (h : CacheRounds hashFn numItems seed rounds) (q : ℕ) :
    ∀ i < numItems, rounds q i = afterRounds hashFn numItems seed cache q i := by
  have hcode : CacheRounds hashFn numItems seed (afterRounds hashFn numItems seed cache) :=
    afterRounds_cacheRounds hle seed cache
  induction q with
  | zero =>
    intro i
    induction i with
    | zero => exact fun _ => h.first.trans hcode.first.symm
    | succ i ih =>
      intro hi
      rw [h.chain i hi, hcode.chain i hi, ih (by omega)]
  | succ q ih =>
    intro i hi
    refine eq_sweep (mixItem hashFn numItems) _ (fun i hi x y hxy => mixItem_local hle hi hxy) ih ?_ hi
    intro i hi
    have hself : halfway (rounds (q + 1)) (rounds q) i i = rounds q i := if_neg (lt_irrefl i)
    rw [mixItem_eq hle hi, hself]
    exact h.mixed q i hi

/-- **`build_light_cache` makes the Ethash cache.**  There is one way to fill the rounds of the cache, the
array holds its last round, and nothing is written past the items. -/
theorem buildLightCache_spec (hpos : 0 < numItems) (hle : numItems ≤ 2 ^ 30) (seed : Hash 8) (cache : ℕ → Hash 16) :
    (∃ rounds, CacheRounds hashFn numItems seed rounds) ∧
      (∀ rounds, CacheRounds hashFn numItems seed rounds → ∀ i < numItems,
        buildLightCache hashFn numItems seed cache i = rounds lightCacheRounds i) ∧
      ∀ i, numItems ≤ i → buildLightCache hashFn numItems seed cache i = cache i := by
  refine ⟨⟨_, afterRounds_cacheRounds hle seed cache⟩, fun rounds h i hi => ?_, fun i hi => ?_⟩
  · exact (h.eq_afterRounds hle cache lightCacheRounds i hi).symm
  · have hchained : Chained hashFn seed cache (numItems - 1) (chainItems hashFn numItems seed cache) :=
      chainItems_chained seed cache
    refine forLoop_inv (fun _ (c : ℕ → Hash 16) => c i = cache i) (hchained.rest i (by omega)) fun q _ c hc => ?_
    exact (sweep_of_le (mixItem hashFn numItems) c hi).trans hc

end Spec

/-- A cache of three items, with the length of the message in the place of its hash. -/
theorem buildLightCache_spec_three :
    let hashFn : List Byte → Hash 16 := fun data _ => BitVec.ofNat 32 data.length
    (∃ rounds, CacheRounds hashFn 3 (fun _ => 0) rounds) ∧
      (∀ rounds, CacheRounds hashFn 3 (fun _ => 0) rounds → ∀ i < 3,
        buildLightCache hashFn 3 (fun _ => 0) (fun _ _ => 7) i = rounds lightCacheRounds i) ∧
      ∀ i, 3 ≤ i → buildLightCache hashFn 3 (fun _ => 0) (fun _ _ => 7) i = fun _ => 7 :=
  buildLightCache_spec (by decide) (by decide) _ _

end Ethash
end EtcMiner
