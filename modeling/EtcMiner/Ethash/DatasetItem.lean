/-
# The dataset items of the CPU code

`item_state`, `calculate_dataset_item_512` and `calculate_dataset_item_1024` in
`ethash/lib/ethash/ethash.cpp`.  A dataset node of 512 bits starts from an item of the light cache
and folds in 256 others, each picked by a word of the mix so far; an item of 1024 bits is two nodes,
computed side by side.

`itemMix` is the mix of a node after some of its rounds, which the proofs about other
implementations follow round by round.
-/

import EtcMiner.Ethash.Hash

namespace EtcMiner
namespace Ethash

open Lib

/-- The light cache of an `epoch_context`: `light_cache` and `light_cache_num_items`, at least one
and a 32-bit number. -/
structure LightCache where
  item : ℕ → Hash 16
  numItems : ℕ
  numItems_pos : 0 < numItems
  numItems_lt : numItems < 2 ^ 32

/-- `full_dataset_item_parents`. -/
def fullDatasetItemParents : ℕ := 256

/-- `item_state`, without the cache. -/
structure ItemState where
  seed : BitVec 32
  mix : Hash 16

/-- `mix.word32s[0] ^= seed`. -/
def xorFirst (mix : Hash 16) (seed : BitVec 32) : Hash 16 := fun j => if j = 0 then mix j ^^^ seed else mix j

/-- `fnv1` of two hashes, word by word. -/
def fnv1Hash (u v : Hash 16) : Hash 16 := fun j => fnv1 (u j) (v j)

section Items

variable (keccakf : State → State) (cache : LightCache)

/-- The constructor of `item_state`. -/
def itemState (index : ℕ) : ItemState where
  seed := BitVec.ofNat 32 index
  mix := keccak512 keccakf (bytes (xorFirst (cache.item (index % cache.numItems)) (BitVec.ofNat 32 index)))

/-- `update`. -/
def ItemState.update (round : ℕ) (s : ItemState) : ItemState :=
  let t := fnv1 (s.seed ^^^ BitVec.ofNat 32 round) (s.mix (Fin.ofNat 16 round))
  { s with mix := fnv1Hash s.mix (cache.item (t.toNat % cache.numItems)) }

/-- `final`. -/
def ItemState.final (s : ItemState) : Hash 16 := keccak512 keccakf (bytes s.mix)

/-- `calculate_dataset_item_512`. -/
def calculateDatasetItem512 (index : ℕ) : Hash 16 :=
  (forLoop (ItemState.update cache) fullDatasetItemParents (itemState keccakf cache index)).final keccakf

/-- `hash1024{{item0, item1}}`. -/
def hash1024 (item0 item1 : Hash 16) : Hash 32 := fun j =>
  if j.val < 16 then item0 (Fin.ofNat 16 j) else item1 (Fin.ofNat 16 j)

/-- `calculate_dataset_item_1024`. -/
def calculateDatasetItem1024 (index : ℕ) : Hash 32 :=
  let items := forLoop (fun j s => (s.1.update cache j, s.2.update cache j)) fullDatasetItemParents
    (itemState keccakf cache (index * 2), itemState keccakf cache (index * 2 + 1))
  hash1024 (items.1.final keccakf) (items.2.final keccakf)

/-- The mix of a node after `i` rounds. -/
def itemMix (index i : ℕ) : Hash 16 := (forLoop (ItemState.update cache) i (itemState keccakf cache index)).mix

theorem ItemState.mk_seed (seed : BitVec 32) (mix : Hash 16) : (ItemState.mk seed mix).seed = seed := rfl

theorem ItemState.update_seed (round : ℕ) (s : ItemState) : (s.update cache round).seed = s.seed :=
  ItemState.mk_seed s.seed _

/-- The seed stays. -/
theorem forLoop_update_seed (i : ℕ) (s : ItemState) : (forLoop (ItemState.update cache) i s).seed = s.seed := by
  induction i with
  | zero => rfl
  | succ i ih =>
    rw [forLoop, ItemState.update_seed]
    exact ih

/-- The index of the cache item that round `i` folds in. -/
def parentIndex (index i : ℕ) : ℕ :=
  (fnv1 (BitVec.ofNat 32 index ^^^ BitVec.ofNat 32 i) (itemMix keccakf cache index i (Fin.ofNat 16 i))).toNat %
    cache.numItems

theorem itemMix_succ (index i : ℕ) :
    itemMix keccakf cache index (i + 1) =
      fnv1Hash (itemMix keccakf cache index i) (cache.item (parentIndex keccakf cache index i)) := by
  have hseed := forLoop_update_seed cache i (itemState keccakf cache index)
  unfold parentIndex
  rw [show BitVec.ofNat 32 index = (itemState keccakf cache index).seed from rfl, ← hseed]
  rfl

/-- The start and the parents of a node whose index is held as a word. -/
theorem itemMix_zero (node : BitVec 32) :
    itemMix keccakf cache node.toNat 0 =
      keccak512 keccakf (bytes (xorFirst (cache.item (node.toNat % cache.numItems)) node)) := by
  unfold itemMix itemState
  rw [forLoop_zero, BitVec.ofNat_toNat, BitVec.setWidth_eq]

theorem parentIndex_toNat (node : BitVec 32) (i : ℕ) :
    parentIndex keccakf cache node.toNat i =
      (fnv1 (node ^^^ BitVec.ofNat 32 i) (itemMix keccakf cache node.toNat i (Fin.ofNat 16 i))).toNat % cache.numItems := by
  rw [parentIndex, BitVec.ofNat_toNat, BitVec.setWidth_eq]

/-- `x % light_size`, in words. -/
theorem toNat_umod_numItems (x : BitVec 32) :
    (x % BitVec.ofNat 32 cache.numItems).toNat = x.toNat % cache.numItems := by
  rw [BitVec.toNat_umod, BitVec.toNat_ofNat, Nat.mod_eq_of_lt cache.numItems_lt]

theorem calculateDatasetItem512_eq (index : ℕ) :
    calculateDatasetItem512 keccakf cache index =
      keccak512 keccakf (bytes (itemMix keccakf cache index fullDatasetItemParents)) := rfl

/-- **An item is its two nodes**, though they are computed side by side. -/
theorem calculateDatasetItem1024_eq (index : ℕ) :
    calculateDatasetItem1024 keccakf cache index =
      hash1024 (calculateDatasetItem512 keccakf cache (index * 2))
        (calculateDatasetItem512 keccakf cache (index * 2 + 1)) := by
  have hboth : forLoop (fun j s => (s.1.update cache j, s.2.update cache j)) fullDatasetItemParents
      (itemState keccakf cache (index * 2), itemState keccakf cache (index * 2 + 1)) =
      (forLoop (ItemState.update cache) fullDatasetItemParents (itemState keccakf cache (index * 2)),
        forLoop (ItemState.update cache) fullDatasetItemParents (itemState keccakf cache (index * 2 + 1))) := by
    refine forLoop_inv (fun i s => s =
      (forLoop (ItemState.update cache) i (itemState keccakf cache (index * 2)),
        forLoop (ItemState.update cache) i (itemState keccakf cache (index * 2 + 1)))) rfl ?_
    intro i _ s hs
    rw [hs]
    rfl
  unfold calculateDatasetItem1024
  rw [hboth]
  rfl

end Items

end Ethash
end EtcMiner
