/-
# The OpenCL kernel that generates the DAG

`SHA3_512` and `GenerateDAG` in `libcl/ethash.cl`, with the buffers that `CLMiner::initEpoch`
allocates.  A work-group runs in lock step between barriers; item `l` makes the node
`start + group * WORKSIZE + l`.  The nodes of four adjacent items lie in local memory, and in every
round each of the four picks a parent for its own node, and then all four fold the parents into the
four nodes, one node after the other, each in its own quarter.

The invariant over the rounds is that cell `l` of `sharebuf` holds the mix of the node of item `l`
(`SharesMix`); inside a round the nodes already folded are one round ahead (`FoldedUpTo`).  So each
item stores the node of `calculate_dataset_item_512` (`generatedNode_eq`).

Where it is stored depends on the build (`nodeSlot`): with `SPLIT_DAG` the nodes of the odd items go
to the second buffer.  No two nodes share a slot, so launches in any order and number keep the right
nodes (`launches_right`), and `MIX` reads the items of `calculate_dataset_item_1024`, within the
buffers (`dag_agrees`).  The launches of `initEpoch` reach all nodes (`initEpoch_dag_holds`), so its
buffers are as the search kernel takes them to be (`Dag.Holds`).

The last launch may have items past the dataset, which store past the end of a buffer; nothing is
said about what that does.
-/

import EtcMiner.Ethash.DatasetItem
import EtcMiner.OpenCL.Search

namespace EtcMiner
namespace OpenCL

open Lib Ethash Gpu

/-- The constants of a build that `GenerateDAG` depends on. -/
structure DagBuild where
  worksize : ℕ
  worksize_pos : 0 < worksize
  four_dvd : 4 ∣ worksize
  splitDag : Bool

/-- A launch of `GenerateDAG`: its first argument and the number of work-groups. -/
structure DagLaunch where
  start : BitVec 32
  groups : ℕ

/-- The local memory of a work-group: the words of `sharebuf` by node, and `indexbuf`. -/
structure DagLocal where
  sharebuf : ℕ × Fin 16 → BitVec 32
  indexbuf : ℕ → BitVec 32

/-- `st` of `SHA3_512`. -/
def sha3State (s : Hash 16) : Fin 25 → Uint2 := fun i =>
  if i.val < 8 then ⟨s (Fin.ofNat 16 (2 * i)), s (Fin.ofNat 16 (2 * i + 1))⟩
  else if i.val = 8 then ⟨0x00000001, 0x80000000⟩
  else ⟨0, 0⟩

section Kernel

variable {keccakf : State → State} (kp : KeccakProcess keccakf) (cache : LightCache)
variable (B : DagBuild) (L : DagLaunch) (group : ℕ)

/-- `SHA3_512`. -/
def sha3512 (s : Hash 16) : Hash 16 := fun j =>
  let lane := kp.run (sha3State s) 8 (Fin.ofNat 25 (j / 2))
  if j.val % 2 = 0 then lane.x else lane.y

/-- `gid`. -/
def dagGid (l : ℕ) : BitVec 32 := BitVec.ofNat 32 (group * B.worksize + l)

/-- `NodeIdx`. -/
def nodeIdx (l : ℕ) : BitVec 32 := L.start + dagGid B group l

/-- `thread_id`. -/
def threadId (l : ℕ) : ℕ := (dagGid B group l &&& 3).toNat

/-- `light_size`. -/
def lightSize : BitVec 32 := BitVec.ofNat 32 cache.numItems

/-- `DAGNode` before the rounds. -/
def firstNode (l : ℕ) : Hash 16 :=
  sha3512 kp (xorFirst (cache.item (nodeIdx B L group l % lightSize cache).toNat) (nodeIdx B L group l))

/-- `dagNode[thread_id] = DAGNode`. -/
def shareNodes (g : DagLocal) : DagLocal :=
  { g with
    sharebuf := scatter B.worksize (fun l =>
      (List.finRange 16).map fun j => ((l / 4 * 4 + threadId B group l, j), firstNode kp cache B L group l j)) g.sharebuf }

/-- `indexes[thread_id] = fnv(NodeIdx ^ i, dagNode[thread_id].dwords[i & 15]) % light_size`. -/
def pickParents (i : ℕ) (g : DagLocal) : DagLocal :=
  { g with
    indexbuf := scatter B.worksize (fun l =>
      [(l / 4 * 4 + threadId B group l,
        fnv1 (nodeIdx B L group l ^^^ BitVec.ofNat 32 i)
          (g.sharebuf (l / 4 * 4 + threadId B group l, Fin.ofNat 16 i)) % lightSize cache)]) g.indexbuf }

/-- `dagNode[t].dqwords[thread_id] = fnv(dagNode[t].dqwords[thread_id], parentNode->dqwords[thread_id])`. -/
def foldParent (t : ℕ) (g : DagLocal) : DagLocal :=
  { g with
    sharebuf := scatter B.worksize (fun l =>
      (List.finRange 4).map fun k : Fin 4 =>
        ((l / 4 * 4 + t, Fin.ofNat 16 (4 * threadId B group l + k)),
          fnv1 (g.sharebuf (l / 4 * 4 + t, Fin.ofNat 16 (4 * threadId B group l + k)))
            (cache.item (g.indexbuf (l / 4 * 4 + t)).toNat (Fin.ofNat 16 (4 * threadId B group l + k))))) g.sharebuf }

/-- One iteration of the loop over the parents. -/
def dagRound (i : ℕ) (g : DagLocal) : DagLocal := forLoop (foldParent cache B group) 4 (pickParents cache B L group i g)

/-- The local memory after the loop, from any initial contents `g`. -/
def dagRounds (g : DagLocal) : DagLocal := forLoop (dagRound cache B L group) 256 (shareNodes kp cache B L group g)

/-- `DAGNode` at the end. -/
def generatedNode (g : DagLocal) (l : ℕ) : Hash 16 :=
  sha3512 kp fun j => (dagRounds kp cache B L group g).sharebuf (l / 4 * 4 + threadId B group l, j)

theorem asUlong_sha3State (s : Hash 16) : (fun i => asUlong (sha3State s i)) = padded 9 (lanes (m := 8) s) := by
  funext j
  fin_cases j <;>
    simp [sha3State, padded, lanes, List.ofFn_succ] <;> rfl

/-- **`SHA3_512` is Keccak-512** of a node. -/
theorem sha3512_eq (s : Hash 16) : sha3512 kp s = keccak512 keccakf (bytes s) := by
  funext j
  have hlane := kp.run_lane (sha3State s) 8 (Fin.ofNat 25 (j / 2)) (by simp only [Fin.ofNat]; omega)
  rw [asUlong_sha3State] at hlane
  rw [keccak512_bytes, ofLanes, ← hlane]
  unfold sha3512
  generalize kp.run (sha3State s) 8 (Fin.ofNat 25 (j / 2)) = lane
  obtain hmod | hmod : j.val % 2 = 0 ∨ j.val % 2 = 1 := by omega
  · simp [hmod, asUlong]
  · simp [hmod, asUlong]

theorem threadId_eq (l : ℕ) : threadId B group l = l % 4 := by
  obtain ⟨m, hm⟩ := B.four_dvd
  have hmask : (3 : BitVec 32).toNat = 2 ^ 2 - 1 := rfl
  simp only [threadId, dagGid, BitVec.toNat_and, BitVec.toNat_ofNat]
  rw [hmask, Nat.and_two_pow_sub_one_eq_mod, hm, Nat.mul_left_comm]
  omega

/-- Every item has a cell of its own. -/
theorem cell_eq (l : ℕ) : l / 4 * 4 + threadId B group l = l := by
  rw [threadId_eq]
  omega

theorem toNat_umod_lightSize (x : BitVec 32) : (x % lightSize cache).toNat = x.toNat % cache.numItems :=
  toNat_umod_numItems cache x

/-- The node an item starts with. -/
theorem firstNode_eq (l : ℕ) :
    firstNode kp cache B L group l = itemMix keccakf cache (nodeIdx B L group l).toNat 0 := by
  rw [firstNode, sha3512_eq, toNat_umod_lightSize, itemMix_zero]

/-- Every cell of local memory holds the mix of its item's node after `i` rounds. -/
def SharesMix (keccakf : State → State) (i : ℕ) (g : DagLocal) : Prop :=
  ∀ l < B.worksize, ∀ j, g.sharebuf (l, j) = itemMix keccakf cache (nodeIdx B L group l).toNat i j

/-- Inside round `i`: the parents are picked, and the first `t` nodes of every four are folded. -/
def FoldedUpTo (keccakf : State → State) (i t : ℕ) (g : DagLocal) : Prop :=
  ∀ l < B.worksize, (g.indexbuf l).toNat = parentIndex keccakf cache (nodeIdx B L group l).toNat i ∧
    ∀ j, g.sharebuf (l, j) = itemMix keccakf cache (nodeIdx B L group l).toNat (if l % 4 < t then i + 1 else i) j

theorem shareNodes_sharesMix (g : DagLocal) :
    SharesMix cache B L group keccakf 0 (shareNodes kp cache B L group g) := by
  intro l hl j
  rw [← firstNode_eq kp]
  refine scatter_of_mem g.sharebuf hl (List.mem_map.2 ⟨j, List.mem_finRange j, ?_⟩) fun l' _ b hb => ?_
  · rw [cell_eq]
  · obtain ⟨j', -, hj'⟩ := List.mem_map.1 hb
    rw [cell_eq] at hj'
    obtain ⟨hcell, rfl⟩ := Prod.mk.inj hj'
    obtain ⟨rfl, rfl⟩ := Prod.mk.inj hcell
    rfl

theorem pickParents_foldedUpTo {i : ℕ} {g : DagLocal} (h : SharesMix cache B L group keccakf i g) :
    FoldedUpTo cache B L group keccakf i 0 (pickParents cache B L group i g) := by
  intro l hl
  refine ⟨?_, fun j => h l hl j⟩
  have hindex : (pickParents cache B L group i g).indexbuf l =
      fnv1 (nodeIdx B L group l ^^^ BitVec.ofNat 32 i) (g.sharebuf (l, Fin.ofNat 16 i)) % lightSize cache := by
    refine scatter_of_mem g.indexbuf hl (List.mem_singleton.2 ?_) fun l' _ b hb => ?_
    · rw [cell_eq]
    · rw [cell_eq] at hb
      obtain ⟨rfl, rfl⟩ := Prod.mk.inj (List.mem_singleton.1 hb)
      rfl
  rw [hindex, toNat_umod_lightSize, h l hl, parentIndex_toNat]

/-- **One node of every four is folded**, a quarter by each item. -/
theorem foldParent_foldedUpTo {i t : ℕ} (ht : t < 4) {g : DagLocal} (h : FoldedUpTo cache B L group keccakf i t g) :
    FoldedUpTo cache B L group keccakf i (t + 1) (foldParent cache B group t g) := by
  obtain ⟨m, hm⟩ := B.four_dvd
  intro l hl
  refine ⟨(h l hl).1, fun j => ?_⟩
  by_cases hturn : l % 4 = t
  · have hcell : (foldParent cache B group t g).sharebuf (l, j) =
        fnv1 (g.sharebuf (l, j)) (cache.item (g.indexbuf l).toNat j) := by
      refine scatter_of_mem g.sharebuf (l := l / 4 * 4 + j / 4) (by omega) ?_ fun l' _ b hb => ?_
      · have hown : (l / 4 * 4 + j / 4) / 4 * 4 + t = l := by omega
        have hword : Fin.ofNat 16 (4 * threadId B group (l / 4 * 4 + j / 4) + (Fin.ofNat 4 j).val) = j := by
          rw [threadId_eq]
          apply Fin.ext
          simp only [Fin.ofNat]
          omega
        refine List.mem_map.2 ⟨Fin.ofNat 4 j, List.mem_finRange _, ?_⟩
        rw [hown, hword]
      · obtain ⟨k, -, hk⟩ := List.mem_map.1 hb
        obtain ⟨hkey, rfl⟩ := Prod.mk.inj hk
        obtain ⟨hown, hword⟩ := Prod.mk.inj hkey
        rw [hown, hword]
    rw [hcell, (h l hl).1, (h l hl).2, if_neg (by omega), if_pos (by omega), itemMix_succ]
    rfl
  · have hcell : (foldParent cache B group t g).sharebuf (l, j) = g.sharebuf (l, j) := by
      refine scatter_of_not_mem g.sharebuf fun l' _ b hb => ?_
      obtain ⟨k, -, hk⟩ := List.mem_map.1 hb
      obtain ⟨hown, -⟩ := Prod.mk.inj (Prod.mk.inj hk).1
      omega
    rw [hcell, (h l hl).2, if_congr (show l % 4 < t ↔ l % 4 < t + 1 by omega) rfl rfl]

/-- **One round** of a work-group is a round of every node. -/
theorem dagRound_sharesMix {i : ℕ} {g : DagLocal} (h : SharesMix cache B L group keccakf i g) :
    SharesMix cache B L group keccakf (i + 1) (dagRound cache B L group i g) := by
  have hfolded : FoldedUpTo cache B L group keccakf i 4 (dagRound cache B L group i g) :=
    forLoop_inv (FoldedUpTo cache B L group keccakf i) (pickParents_foldedUpTo cache B L group h)
      fun t ht _ hg => foldParent_foldedUpTo cache B L group ht hg
  intro l hl j
  rw [(hfolded l hl).2 j, if_pos (Nat.mod_lt l (by decide))]

/-- **Every item makes the node of the CPU code**, whatever the local memory held before. -/
theorem generatedNode_eq (g : DagLocal) {l : ℕ} (hl : l < B.worksize) :
    generatedNode kp cache B L group g l = calculateDatasetItem512 keccakf cache (nodeIdx B L group l).toNat := by
  have hrounds : SharesMix cache B L group keccakf 256 (dagRounds kp cache B L group g) :=
    forLoop_inv (SharesMix cache B L group keccakf) (shareNodes_sharesMix kp cache B L group g)
      fun i _ _ hg => dagRound_sharesMix cache B L group hg
  have hnode : (fun j => (dagRounds kp cache B L group g).sharebuf (l / 4 * 4 + threadId B group l, j)) =
      itemMix keccakf cache (nodeIdx B L group l).toNat fullDatasetItemParents := by
    funext j
    rw [cell_eq]
    exact hrounds l hl j
  rw [generatedNode, hnode, sha3512_eq, calculateDatasetItem512_eq]

end Kernel

section Layout

/-- Where the node `nodeIdx` is stored: in the second buffer or not, and its index there. -/
def nodeSlot (splitDag : Bool) (nodeIdx : BitVec 32) : Bool × ℕ :=
  if splitDag then
    (nodeIdx &&& 2 ≠ 0, ((nodeIdx &&& ~~~2) / 2 ||| (nodeIdx &&& ~~~2) &&& 1).toNat)
  else (false, nodeIdx.toNat)

/-- `NodeIdx &= ~2`. -/
theorem toNat_and_not_two (i : BitVec 32) : (i &&& ~~~2).toNat = i.toNat / 4 * 4 + i.toNat % 2 := by
  have hmask : (~~~2 : BitVec 32).toNat = 4294967293 := by decide
  have hlt := i.isLt
  have hdiv : (i.toNat &&& 4294967293) / 2 ^ 2 = i.toNat / 4 := by
    rw [Nat.and_div_two_pow, show 4294967293 / 2 ^ 2 = 2 ^ 30 - 1 from rfl, Nat.and_two_pow_sub_one_eq_mod]
    omega
  have hmod : (i.toNat &&& 4294967293) % 2 ^ 2 = i.toNat % 2 := by
    rw [Nat.and_mod_two_pow, show 4294967293 % 2 ^ 2 = 2 ^ 1 - 1 from rfl, Nat.and_two_pow_sub_one_eq_mod]
    omega
  rw [BitVec.toNat_and, hmask]
  omega

theorem and_two_ne_zero_iff (i : BitVec 32) : i &&& 2 ≠ 0 ↔ i.toNat / 2 % 2 = 1 := by
  have hzero : i &&& 2 = 0 ↔ i.toNat &&& 2 = 0 := by
    rw [← BitVec.toNat_inj]
    rfl
  have hdiv : (i.toNat &&& 2) / 2 ^ 1 = i.toNat / 2 % 2 := by
    rw [Nat.and_div_two_pow, show 2 / 2 ^ 1 = 2 ^ 1 - 1 from rfl, Nat.and_two_pow_sub_one_eq_mod]
  have hmod : (i.toNat &&& 2) % 2 ^ 1 = 0 := by
    rw [Nat.and_mod_two_pow, show 2 % 2 ^ 1 = 0 from rfl, Nat.and_zero]
  rw [ne_eq, hzero]
  omega

/-- With `SPLIT_DAG` node `4 * q + 2 * r + b` is node `2 * q + b` of the buffer `r`. -/
theorem nodeSlot_true (i : BitVec 32) :
    nodeSlot true i = (decide (i.toNat / 2 % 2 = 1), i.toNat / 4 * 2 + i.toNat % 2) := by
  have hor : i.toNat / 4 * 2 ||| i.toNat % 2 = i.toNat / 4 * 2 + i.toNat % 2 := by
    have hlow : i.toNat % 2 < 2 ^ 1 := Nat.mod_lt _ (by decide)
    rw [Nat.mul_comm, ← Nat.two_pow_add_eq_or_of_lt hlow]
  have hhalf : (i.toNat / 4 * 4 + i.toNat % 2) / (2 : BitVec 32).toNat = i.toNat / 4 * 2 := by
    rw [show (2 : BitVec 32).toNat = 2 from rfl]
    omega
  have hbit : (i.toNat / 4 * 4 + i.toNat % 2) &&& (1 : BitVec 32).toNat = i.toNat % 2 := by
    rw [show (1 : BitVec 32).toNat = 1 from rfl, Nat.and_one_is_mod]
    omega
  simp only [nodeSlot, if_true, Prod.mk.injEq, decide_eq_decide]
  refine ⟨and_two_ne_zero_iff i, ?_⟩
  rw [BitVec.toNat_or, BitVec.toNat_and _ 1, BitVec.toNat_udiv, toNat_and_not_two, hhalf, hbit, hor]

theorem nodeSlot_injective (splitDag : Bool) {i j : BitVec 32} (h : nodeSlot splitDag i = nodeSlot splitDag j) :
    i = j := by
  apply BitVec.eq_of_toNat_eq
  cases splitDag with
  | false => exact (Prod.mk.inj h).2
  | true =>
    rw [nodeSlot_true, nodeSlot_true, Prod.mk.injEq, decide_eq_decide] at h
    omega

/-- The DAG buffers as arrays of nodes, by buffer and index. -/
abbrev DagMemory := Bool × ℕ → Hash 16

/-- The buffers as the search kernel sees them, two nodes to an item. -/
def DagMemory.dag (splitDag : Bool) (mem : DagMemory) : Dag where
  splitDag := splitDag
  gDag0 k := hash1024 (mem (false, 2 * k)) (mem (false, 2 * k + 1))
  gDag1 k := hash1024 (mem (true, 2 * k)) (mem (true, 2 * k + 1))

/-- The buffer and the index in it from which `MIX` reads the item `idx`. -/
def itemSlot (splitDag : Bool) (idx : BitVec 32) : Bool × ℕ :=
  if splitDag then (idx &&& 1 ≠ 0, (idx >>> 1).toNat) else (false, idx.toNat)

/-- The sizes in bytes of the buffers that `initEpoch` allocates for `dagNumItems` items; there is
no second one without `SPLIT_DAG`. -/
def bufferSize (splitDag : Bool) (dagNumItems : ℕ) (second : Bool) : ℕ :=
  let dagSize := dagNumItems * 128
  if splitDag then
    let delta := if dagNumItems &&& 1 ≠ 0 then 64 else 0
    if second then dagSize / 2 - delta else dagSize / 2 + delta
  else if second then 0
  else dagSize

/-- `MIX` reads where it is said to. -/
theorem Dag.item_eq_itemSlot (d : Dag) (idx : BitVec 32) :
    d.item idx = (if (itemSlot d.splitDag idx).1 then d.gDag1 else d.gDag0) (itemSlot d.splitDag idx).2 := by
  unfold Dag.item itemSlot
  cases d.splitDag with
  | false => rfl
  | true =>
    by_cases heven : idx &&& 1 = 0
    · simp only [heven, if_true, ne_eq, not_true, decide_false, Bool.false_eq_true, if_false]
    · simp only [heven, if_true, if_false, ne_eq, not_false_iff, decide_true]

theorem DagMemory.dag_item (splitDag : Bool) (mem : DagMemory) (idx : BitVec 32) :
    (mem.dag splitDag).item idx =
      hash1024 (mem ((itemSlot splitDag idx).1, 2 * (itemSlot splitDag idx).2))
        (mem ((itemSlot splitDag idx).1, 2 * (itemSlot splitDag idx).2 + 1)) := by
  rw [Dag.item_eq_itemSlot]
  have hsplit : (mem.dag splitDag).splitDag = splitDag := rfl
  rw [hsplit]
  cases (itemSlot splitDag idx).1 with
  | false => rfl
  | true => rfl

/-- With `SPLIT_DAG` the odd items are in the second buffer. -/
theorem itemSlot_true (idx : BitVec 32) : itemSlot true idx = (decide (idx.toNat % 2 = 1), idx.toNat / 2) := by
  have hbit : idx &&& 1 = 0 ↔ idx.toNat % 2 = 0 := by
    rw [← BitVec.toNat_inj, BitVec.toNat_and, show (1 : BitVec 32).toNat = 1 from rfl, Nat.and_one_is_mod]
    rfl
  simp only [itemSlot, if_true, Prod.mk.injEq, decide_eq_decide, ne_eq, hbit]
  refine ⟨by omega, ?_⟩
  rw [BitVec.toNat_ushiftRight, Nat.shiftRight_eq_div_pow]

/-- Buffers whose items are those of `dataset` hold it. -/
theorem Dag.holds_of_item {d : Dag} {n : ℕ} {dataset : ℕ → Hash 32} (hn : n ≤ 2 ^ 32)
    (h : ∀ p < n, d.item (BitVec.ofNat 32 p) = dataset p) : d.Holds n dataset := by
  have hitem (p : ℕ) (hp : p < n) :
      (if (itemSlot d.splitDag (BitVec.ofNat 32 p)).1 then d.gDag1 else d.gDag0)
        (itemSlot d.splitDag (BitVec.ofNat 32 p)).2 = dataset p := by
    rw [← h p hp, Dag.item_eq_itemSlot]
  have hp32 (p : ℕ) (hp : p < n) : (BitVec.ofNat 32 p).toNat = p := by
    rw [BitVec.toNat_ofNat]
    omega
  unfold Dag.Holds
  cases hsplit : d.splitDag with
  | false =>
    rw [hsplit] at hitem
    intro p hp
    have hread := hitem p hp
    rwa [itemSlot, if_neg Bool.false_ne_true, if_neg Bool.false_ne_true, hp32 p hp] at hread
  | true =>
    rw [hsplit] at hitem
    refine ⟨fun k hk => ?_, fun k hk => ?_⟩
    · have hread := hitem (2 * k) hk
      rwa [itemSlot_true, hp32 _ hk, decide_eq_false (by omega), Nat.mul_div_cancel_left k (by decide)] at hread
    · have hread := hitem (2 * k + 1) hk
      rwa [itemSlot_true, hp32 _ hk, decide_eq_true (by omega), show (2 * k + 1) / 2 = k by omega] at hread

/-- **Writer and reader agree**: the two nodes of an item are stored where `MIX` reads it. -/
theorem nodeSlot_eq_itemSlot (splitDag : Bool) {p b : ℕ} (hb : b < 2) (hp : p * 2 + b < 2 ^ 32) :
    nodeSlot splitDag (BitVec.ofNat 32 (p * 2 + b)) =
      ((itemSlot splitDag (BitVec.ofNat 32 p)).1, 2 * (itemSlot splitDag (BitVec.ofNat 32 p)).2 + b) := by
  have hp' : p < 2 ^ 32 := by omega
  cases splitDag with
  | false =>
    simp only [nodeSlot, itemSlot, Bool.false_eq_true, if_false, BitVec.toNat_ofNat, Nat.mod_eq_of_lt hp,
      Nat.mod_eq_of_lt hp', Nat.mul_comm]
  | true =>
    simp only [nodeSlot_true, itemSlot_true, BitVec.toNat_ofNat, Nat.mod_eq_of_lt hp, Nat.mod_eq_of_lt hp',
      Prod.mk.injEq, decide_eq_decide]
    omega

/-- **Items lie within the buffers**, for odd and even numbers of them. -/
theorem itemSlot_within (splitDag : Bool) {n p : ℕ} (hp : p < n) (hn : n ≤ 2 ^ 32) :
    128 * ((itemSlot splitDag (BitVec.ofNat 32 p)).2 + 1) ≤
      bufferSize splitDag n (itemSlot splitDag (BitVec.ofNat 32 p)).1 := by
  have hp' : p < 2 ^ 32 := by omega
  cases splitDag with
  | false =>
    simp only [itemSlot, bufferSize, Bool.false_eq_true, if_false, BitVec.toNat_ofNat, Nat.mod_eq_of_lt hp']
    omega
  | true =>
    simp only [itemSlot_true, bufferSize, BitVec.toNat_ofNat, Nat.mod_eq_of_lt hp', if_true, Nat.and_one_is_mod,
      decide_eq_true_eq]
    split_ifs <;> omega

end Layout

section Launches

variable {keccakf : State → State} (kp : KeccakProcess keccakf) (cache : LightCache) (B : DagBuild)

/-- The buffers after a launch, whose work-groups find `locals` in their local memories. -/
def runLaunch (L : DagLaunch) (locals : ℕ → DagLocal) (mem : DagMemory) : DagMemory :=
  scatter L.groups (fun group => (List.range B.worksize).map fun l =>
    (nodeSlot B.splitDag (nodeIdx B L group l), generatedNode kp cache B L group (locals group) l)) mem

/-- The node `i` of the buffers is that of the CPU code. -/
def RightNode (keccakf : State → State) (mem : DagMemory) (i : BitVec 32) : Prop :=
  mem (nodeSlot B.splitDag i) = calculateDatasetItem512 keccakf cache i.toNat

/-- What a launch stores is right. -/
theorem runLaunch_stores (L : DagLaunch) (locals : ℕ → DagLocal) (mem : DagMemory) {group l : ℕ}
    (hgroup : group < L.groups) (hl : l < B.worksize) :
    RightNode cache B keccakf (runLaunch kp cache B L locals mem) (nodeIdx B L group l) := by
  refine scatter_of_mem mem hgroup (List.mem_map.2 ⟨l, List.mem_range.2 hl, ?_⟩) fun group' _ b hb => ?_
  · rw [generatedNode_eq kp cache B L group _ hl]
  · obtain ⟨l', hl', h⟩ := List.mem_map.1 hb
    obtain ⟨hslot, rfl⟩ := Prod.mk.inj h
    rw [generatedNode_eq kp cache B L group' _ (List.mem_range.1 hl'), nodeSlot_injective _ hslot]

/-- What is right stays right. -/
theorem runLaunch_keeps (L : DagLaunch) (locals : ℕ → DagLocal) {mem : DagMemory} {i : BitVec 32}
    (h : RightNode cache B keccakf mem i) : RightNode cache B keccakf (runLaunch kp cache B L locals mem) i := by
  by_cases hstored : ∃ group < L.groups, ∃ l < B.worksize, nodeIdx B L group l = i
  · obtain ⟨group, hgroup, l, hl, rfl⟩ := hstored
    exact runLaunch_stores kp cache B L locals mem hgroup hl
  · unfold RightNode
    rw [← h]
    refine scatter_of_not_mem mem fun group hgroup a ha => hstored ?_
    obtain ⟨l, hl, hslot⟩ := List.mem_map.1 ha
    exact ⟨group, hgroup, l, List.mem_range.1 hl, nodeSlot_injective _ (Prod.mk.inj hslot).1⟩

/-- The buffers after launches one after the other. -/
def runLaunches (launches : List (DagLaunch × (ℕ → DagLocal))) (mem : DagMemory) : DagMemory :=
  launches.foldl (fun mem L => runLaunch kp cache B L.1 L.2 mem) mem

theorem runLaunches_keeps (launches : List (DagLaunch × (ℕ → DagLocal))) {mem : DagMemory} {i : BitVec 32}
    (h : RightNode cache B keccakf mem i) :
    RightNode cache B keccakf (runLaunches kp cache B launches mem) i := by
  induction launches generalizing mem with
  | nil => exact h
  | cons L launches ih => exact ih (runLaunch_keeps kp cache B L.1 L.2 h)

/-- Some launch has an item for the node `i`. -/
def Launched (launches : List (DagLaunch × (ℕ → DagLocal))) (i : ℕ) : Prop :=
  ∃ L ∈ launches, ∃ group < L.1.groups, ∃ l < B.worksize, L.1.start.toNat + (group * B.worksize + l) = i

theorem nodeIdx_eq (L : DagLaunch) {group l : ℕ} :
    nodeIdx B L group l = BitVec.ofNat 32 (L.start.toNat + (group * B.worksize + l)) := by
  apply BitVec.eq_of_toNat_eq
  simp only [nodeIdx, dagGid, BitVec.toNat_add, BitVec.toNat_ofNat, Nat.add_mod_mod]

/-- **Launches in any order and number** leave the nodes they have items for right. -/
theorem launches_right (launches : List (DagLaunch × (ℕ → DagLocal))) (mem : DagMemory) {i : ℕ}
    (h : Launched B launches i) :
    RightNode cache B keccakf (runLaunches kp cache B launches mem) (BitVec.ofNat 32 i) := by
  induction launches generalizing mem with
  | nil =>
    obtain ⟨L, hL, -⟩ := h
    exact absurd hL List.not_mem_nil
  | cons L₀ launches ih =>
    obtain ⟨L, hL, group, hgroup, l, hl, hi⟩ := h
    obtain rfl | hrest := List.mem_cons.1 hL
    -- Stored by the first launch, and kept by the others.
    · rw [← hi, ← nodeIdx_eq]
      exact runLaunches_keeps kp cache B launches (runLaunch_stores kp cache B L.1 L.2 mem hgroup hl)
    · exact ih (runLaunch kp cache B L₀.1 L₀.2 mem) ⟨L, hrest, group, hgroup, l, hl, hi⟩

/-- `MIX` reads the items of the dataset after launches for all its nodes. -/
theorem item_of_launched (launches : List (DagLaunch × (ℕ → DagLocal))) (mem : DagMemory) {n p : ℕ}
    (hn : n * 2 ≤ 2 ^ 32) (hlaunched : ∀ i < n * 2, Launched B launches i) (hp : p < n) :
    ((runLaunches kp cache B launches mem).dag B.splitDag).item (BitVec.ofNat 32 p) =
      calculateDatasetItem1024 keccakf cache p := by
  have hnode (b : ℕ) (hb : b < 2) :
      runLaunches kp cache B launches mem
          ((itemSlot B.splitDag (BitVec.ofNat 32 p)).1, 2 * (itemSlot B.splitDag (BitVec.ofNat 32 p)).2 + b) =
        calculateDatasetItem512 keccakf cache (p * 2 + b) := by
    have hlt : p * 2 + b < 2 ^ 32 := by omega
    have hright := launches_right kp cache B launches mem (hlaunched (p * 2 + b) (by omega))
    rwa [RightNode, nodeSlot_eq_itemSlot B.splitDag hb hlt, BitVec.toNat_ofNat, Nat.mod_eq_of_lt hlt] at hright
  rw [DagMemory.dag_item, calculateDatasetItem1024_eq]
  exact congrArg₂ hash1024 (hnode 0 (by decide)) (hnode 1 (by decide))

/-- **The DAG of the OpenCL kernels is that of the CPU code.**  Each item of a launch stores the node
of its index; and when there were launches for all nodes of a dataset of `n` items, `MIX` reads the
items of the dataset, within the buffers, with `SPLIT_DAG` and without. -/
theorem dag_agrees :
    (∀ (L : DagLaunch) (locals : ℕ → DagLocal) (mem : DagMemory), ∀ group < L.groups, ∀ l < B.worksize,
      ∀ i < 2 ^ 32, L.start.toNat + (group * B.worksize + l) = i →
        runLaunch kp cache B L locals mem (nodeSlot B.splitDag (BitVec.ofNat 32 i)) =
          calculateDatasetItem512 keccakf cache i) ∧
      ∀ (launches : List (DagLaunch × (ℕ → DagLocal))) (mem : DagMemory) (n : ℕ), n * 2 ≤ 2 ^ 32 →
        (∀ i < n * 2, Launched B launches i) → ∀ p < n,
          ((runLaunches kp cache B launches mem).dag B.splitDag).item (BitVec.ofNat 32 p) =
              calculateDatasetItem1024 keccakf cache p ∧
            128 * ((itemSlot B.splitDag (BitVec.ofNat 32 p)).2 + 1) ≤
              bufferSize B.splitDag n (itemSlot B.splitDag (BitVec.ofNat 32 p)).1 := by
  constructor
  · intro L locals mem group hgroup l hl i hi hidx
    have hstored := runLaunch_stores kp cache B L locals mem hgroup hl
    rwa [nodeIdx_eq, hidx, RightNode, BitVec.toNat_ofNat, Nat.mod_eq_of_lt hi] at hstored
  · intro launches mem n hn hlaunched p hp
    exact ⟨item_of_launched kp cache B launches mem hn hlaunched hp, itemSlot_within B.splitDag hp (by omega)⟩

/-- A cache of one item. -/
def oneItemCache : LightCache where
  item _ _ := 0
  numItems := 1
  numItems_pos := Nat.one_pos
  numItems_lt := by decide

theorem zero_lt_four_items : 0 < 4 := by decide

theorem four_dvd_four_items : 4 ∣ 4 := Nat.dvd_refl 4

/-- Work-groups of four items and two buffers. -/
def fourItems : DagBuild where
  worksize := 4
  worksize_pos := zero_lt_four_items
  four_dvd := four_dvd_four_items
  splitDag := true

/-- One work-group makes the four nodes of two items, for the identity in the place of the
permutation. -/
theorem dag_agrees_fourItems :
    let kp : KeccakProcess id := ⟨fun s _ => s, fun _ _ _ _ => rfl⟩
    let launches : List (DagLaunch × (ℕ → DagLocal)) := [(⟨0, 1⟩, fun _ => ⟨fun _ => 0, fun _ => 0⟩)]
    ((runLaunches kp oneItemCache fourItems launches fun _ _ => 0).dag true).item 1 =
      calculateDatasetItem1024 id oneItemCache 1 :=
  ((dag_agrees _ oneItemCache fourItems).2 _ _ 2 (by decide)
    (fun i hi => ⟨_, List.mem_singleton.2 rfl, 0, Nat.one_pos, i, hi, by simp⟩) 1 (by decide)).1

end Launches

section Host

/-- The loop of `initEpoch` over the launches, as pairs of a start and a number of work-items. -/
def launchLoop (workItems chunk groupSize : ℕ) : ℕ → ℕ → List (ℕ × ℕ)
  | 0, _ => []
  | fuel + 1, start =>
    if start ≤ workItems - chunk then (start, chunk) :: launchLoop workItems chunk groupSize fuel (start + chunk)
    else if start < workItems then [(start, (workItems - start + groupSize - 1) / groupSize * groupSize)]
    else []

/-- The launches of `initEpoch` for work-groups of `clGroupSize` items and chunks of `blockMultiple`
of them. -/
def initEpochLaunches (dagNumItems clGroupSize blockMultiple : ℕ) : List (ℕ × ℕ) :=
  let workItems := dagNumItems * 2
  let chunk := if clGroupSize * blockMultiple > workItems then workItems else clGroupSize * blockMultiple
  launchLoop workItems chunk clGroupSize (workItems + 1) 0

variable {workItems groupSize m : ℕ}

/-- The launches from `start` on reach every node from there. -/
theorem exists_launch (hgroup : 0 < groupSize) (hm : 0 < m) (fuel : ℕ) {start i : ℕ}
    (hfuel : workItems < fuel + start) (hstart : start ≤ i) (hi : i < workItems) :
    ∃ L ∈ launchLoop workItems (groupSize * m) groupSize fuel start,
      groupSize ∣ L.2 ∧ L.1 ≤ i ∧ i < L.1 + L.2 := by
  have hpos : 0 < groupSize * m := Nat.mul_pos hgroup hm
  induction fuel generalizing start with
  | zero => omega
  | succ fuel ih =>
    unfold launchLoop
    by_cases hwhole : start ≤ workItems - groupSize * m
    · rw [if_pos hwhole]
      by_cases hhere : i < start + groupSize * m
      · exact ⟨_, List.mem_cons_self, Nat.dvd_mul_right _ _, hstart, hhere⟩
      · obtain ⟨L, hL, h⟩ := @ih (start + groupSize * m) (by omega) (by omega)
        exact ⟨L, List.mem_cons_of_mem _ hL, h⟩
    · rw [if_neg hwhole, if_pos (by omega)]
      refine ⟨_, List.mem_singleton.2 rfl, Nat.dvd_mul_left _ _, hstart, ?_⟩
      have hceil : workItems - start ≤ (workItems - start + groupSize - 1) / groupSize * groupSize := by
        have hdiv := Nat.div_add_mod (workItems - start + groupSize - 1) groupSize
        have hmod := Nat.mod_lt (workItems - start + groupSize - 1) hgroup
        rw [Nat.mul_comm]
        omega
      dsimp only
      omega

/-- **The launches of `initEpoch`** leave the dataset in the buffers that the search kernel expects, if
the chunks are not larger than the dataset. -/
theorem initEpoch_dag_holds {keccakf : State → State} (kp : KeccakProcess keccakf) (cache : LightCache) (B : DagBuild)
    {n blockMultiple : ℕ} (hn : n * 2 < 2 ^ 32) (hblocks : 0 < blockMultiple)
    (hchunk : B.worksize * blockMultiple ≤ n * 2) (locals : ℕ → ℕ → DagLocal) (mem : DagMemory) :
    ((runLaunches kp cache B ((initEpochLaunches n B.worksize blockMultiple).map fun L =>
      (⟨BitVec.ofNat 32 L.1, L.2 / B.worksize⟩, locals L.1)) mem).dag B.splitDag).Holds n
        (calculateDatasetItem1024 keccakf cache) := by
  refine Dag.holds_of_item (by omega) fun p hp => ?_
  refine item_of_launched kp cache B _ mem (by omega) (fun i hi => ?_) hp
  obtain ⟨L, hL, hdvd, hfrom, hto⟩ :=
    exists_launch B.worksize_pos hblocks (n * 2 + 1) (by omega) (Nat.zero_le i) hi
  have hmem : L ∈ initEpochLaunches n B.worksize blockMultiple := by
    rw [initEpochLaunches, if_neg (Nat.not_lt.2 hchunk)]
    exact hL
  have hstart : (BitVec.ofNat 32 L.1).toNat = L.1 := by
    rw [BitVec.toNat_ofNat]
    omega
  have hcount : L.2 / B.worksize * B.worksize = L.2 := Nat.div_mul_cancel hdvd
  refine ⟨_, List.mem_map.2 ⟨L, hmem, rfl⟩, (i - L.1) / B.worksize, ?_, (i - L.1) % B.worksize,
    Nat.mod_lt _ B.worksize_pos, ?_⟩
  · dsimp only
    exact (Nat.div_lt_iff_lt_mul B.worksize_pos).2 (by omega)
  · dsimp only
    rw [hstart, Nat.div_add_mod']
    omega

end Host

end OpenCL
end EtcMiner
