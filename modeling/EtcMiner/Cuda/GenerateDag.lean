/-
# The CUDA kernel that generates the DAG

`ethash_calculate_dag_item` in `libcuda/ethash_cuda_miner_kernel.cu`.  Thread `threadIdx.x` of a block
makes the node `start + blockIdx.x * blockDim.x + threadIdx.x`, in registers of its own.  Four adjacent
threads load the light cache together: in every round each picks the parent of its node, then the four
parents are taken in turn, and of each parent every thread loads a quarter, which the thread whose turn
it is collects with `SHFL` and folds into its node.

A turn folds one whole parent into one node (`foldParent_eq`), a round one parent into each
(`dagRound_eq`), so by induction on the rounds the four nodes are the mixes of the CPU code and what is
stored is `calculate_dataset_item_512` (`calculateDagItem_eq`).  This is for groups of four threads that
all pass the range test at the start of the kernel; what `SHFL` reads from a thread that has returned
is not specified, and neither is then what is stored (`stale`).  Groups that start at a multiple of four
pass or fail the test together (`wholeGroups_of_aligned`).  After launches of whole groups the items of
the DAG are those of `calculate_dataset_item_1024` (`cuda_dag_agrees`).
-/

import EtcMiner.Cuda.Keccak
import EtcMiner.Ethash.DatasetItem
import EtcMiner.Lib.Lockstep

namespace EtcMiner
namespace Cuda

open Lib Ethash Gpu

/-- `SHA3_512` on the 64 bytes of a node, for the permutation `keccakf`. -/
structure Sha3512 (keccakf : State → State) where
  run : Hash 16 → Hash 16
  run_eq : ∀ node, run node = keccak512 keccakf (bytes node)

/-- `sha3_buf` of the union, with the node in its first 64 bytes and `rest` after them. -/
def sha3Buf (rest : Fin 25 → Uint2) (node : Hash 16) : Fin 25 → Uint2 := fun i =>
  if i.val < 8 then ⟨node (Fin.ofNat 16 (2 * i)), node (Fin.ofNat 16 (2 * i + 1))⟩ else rest i

theorem sha3Buf_holdsSeed (rest : Fin 25 → Uint2) (node : Hash 16) :
    HoldsSeed (fun i => sha3Buf rest node (i.castLE eight_le_twentyFive)) node := by
  intro i
  simp only [sha3Buf, Fin.val_castLE, i.isLt, if_true]
  congr 2
  · exact Fin.ext (by simp only [Fin.ofNat]; omega)
  · exact Fin.ext (by simp only [Fin.ofNat]; omega)

/-- The kernel's own `SHA3_512`, whatever the union holds after the node. -/
def sha3512Of (rest : Fin 25 → Uint2) : Sha3512 keccakf1600 where
  run node j := uints (fun i => Keccak.sha3512 (sha3Buf rest node) (Fin.ofNat 25 i)) j
  run_eq node := by
    have hout := Keccak.sha3512_holdsSeed (sha3Buf_holdsSeed rest node)
    have hlane : (fun i : Fin 8 => Keccak.sha3512 (sha3Buf rest node) (i.castLE eight_le_twentyFive)) =
        fun i : Fin 8 => Keccak.sha3512 (sha3Buf rest node) (Fin.ofNat 25 i) := by
      funext i
      congr 1
      exact Fin.ext (by simp only [Fin.ofNat, Fin.val_castLE]; omega)
    rw [hlane] at hout
    funext j
    exact uints_of_holdsSeed hout j.isLt

/-- A launch of `ethash_calculate_dag_item`. -/
structure DagLaunch where
  start : BitVec 32
  gridSize : ℕ
  blockSize : ℕ

/-- `node_index` of a thread. -/
def nodeIndex (L : DagLaunch) (block thread : ℕ) : BitVec 32 :=
  L.start + BitVec.ofNat 32 block * BitVec.ofNat 32 L.blockSize + BitVec.ofNat 32 thread

/-- A thread goes on: not `((node_index >> 1) & (~1)) >= d_dag_size`. -/
def passes (dagSize node : BitVec 32) : Bool := !decide ((node >>> 1) &&& ~~~1 ≥ dagSize)

/-- `SHFL(v, lane, 4)`: every thread of the four reads `v` of one of them. -/
def shfl4 {α : Type*} (v : Fin 4 → α) (lane : ℕ) : Fin 4 → α := fun _ => v (Fin.ofNat 4 lane)

/-- `uint4s[w]` of a node. -/
def uint4 (node : Hash 16) (w : ℕ) : Fin 4 → BitVec 32 := fun k => node (Fin.ofNat 16 (4 * w + k))

/-- `uint4s[w] = v`. -/
def setUint4 (node : Hash 16) (w : ℕ) (v : Fin 4 → BitVec 32) : Hash 16 := fun j =>
  if j.val / 4 = w then v (Fin.ofNat 4 j) else node j

section Kernel

variable {keccakf : State → State} (sha : Sha3512 keccakf) (cache : LightCache) (node : Fin 4 → BitVec 32)

/-- `d_light_size`. -/
def lightSize : BitVec 32 := BitVec.ofNat 32 cache.numItems

/-- `dag_node` of the four threads before the rounds. -/
def firstNodes : Fin 4 → Hash 16 := fun r =>
  sha.run (xorFirst (cache.item (node r % lightSize cache).toNat) (node r))

/-- `parent_index` of the four threads. -/
def parentIndices (i : ℕ) (dagNode : Fin 4 → Hash 16) : Fin 4 → BitVec 32 := fun r =>
  fnv1 (node r ^^^ BitVec.ofNat 32 i) (dagNode r (Fin.ofNat 16 i)) % lightSize cache

/-- `p4` of the four threads in the turn `t`: thread `r` loads a quarter of the parent of thread `t`. -/
def loadQuarters (parent : Fin 4 → BitVec 32) (t : ℕ) : Fin 4 → Fin 4 → BitVec 32 := fun r =>
  let shuffleIndex := shfl4 parent t r
  uint4 (cache.item shuffleIndex.toNat) r

/-- The body of the loop over `w`: thread `t` folds the quarter `w`. -/
def foldQuarter (p4 : Fin 4 → Fin 4 → BitVec 32) (t w : ℕ) (dagNode : Fin 4 → Hash 16) : Fin 4 → Hash 16 := fun r =>
  let s4 : Fin 4 → BitVec 32 := fun k => shfl4 (fun u => p4 u k) w r
  if t = r.val then setUint4 (dagNode r) w (fnv4 (uint4 (dagNode r) w) s4) else dagNode r

/-- The body of the loop over `t`. -/
def foldParent (parent : Fin 4 → BitVec 32) (t : ℕ) (dagNode : Fin 4 → Hash 16) : Fin 4 → Hash 16 :=
  forLoop (foldQuarter (loadQuarters cache parent t) t) 4 dagNode

/-- The body of the loop over the parents. -/
def dagRound (i : ℕ) (dagNode : Fin 4 → Hash 16) : Fin 4 → Hash 16 :=
  forLoop (foldParent cache (parentIndices cache node i dagNode)) 4 dagNode

/-- What the four threads store, when none of them has returned. -/
def calculateDagItem : Fin 4 → Hash 16 := fun r =>
  sha.run (forLoop (dagRound cache node) 256 (firstNodes sha cache node) r)

theorem toNat_umod_lightSize (x : BitVec 32) : (x % lightSize cache).toNat = x.toNat % cache.numItems :=
  toNat_umod_numItems cache x

/-- The quarter `w` that thread `t` reads is that of its own parent. -/
theorem foldQuarter_eq (parent : Fin 4 → BitVec 32) (t w : ℕ) (dagNode : Fin 4 → Hash 16) (r : Fin 4) (j : Fin 16)
    (hw : w < 4) :
    foldQuarter (loadQuarters cache parent t) t w dagNode r j =
      if t = r.val ∧ j.val / 4 = w then fnv1 (dagNode r j) (cache.item (parent r).toNat j) else dagNode r j := by
  by_cases hturn : t = r.val
  · by_cases hquarter : j.val / 4 = w
    · have hj : Fin.ofNat 16 (4 * w + (Fin.ofNat 4 j).val) = j := Fin.ext (by simp only [Fin.ofNat]; omega)
      have hr : Fin.ofNat 4 t = r := Fin.ext (by simp only [Fin.ofNat]; omega)
      have hw' : (Fin.ofNat 4 w).val = w := Nat.mod_eq_of_lt hw
      simp only [foldQuarter, loadQuarters, shfl4, setUint4, uint4, fnv4, if_pos hturn, if_pos hquarter,
        if_pos (And.intro hturn hquarter), hw', hj, hr]
      rfl
    · simp only [foldQuarter, setUint4, if_pos hturn, hquarter, and_false, if_false]
  · simp only [foldQuarter, hturn, if_false, false_and]

/-- **A turn** folds one parent into one node. -/
theorem foldParent_eq (parent : Fin 4 → BitVec 32) (t : ℕ) (dagNode : Fin 4 → Hash 16) :
    foldParent cache parent t dagNode = fun r =>
      if t = r.val then fnv1Hash (dagNode r) (cache.item (parent r).toNat) else dagNode r := by
  -- After `w` steps the first `w` quarters of the node whose turn it is are folded.
  have hquarters := @forLoop_inv (Fin 4 → Hash 16) (foldQuarter (loadQuarters cache parent t) t) 4 dagNode
    (fun w d => ∀ r j, d r j =
      if t = r.val ∧ j.val / 4 < w then fnv1 (dagNode r j) (cache.item (parent r).toNat j) else dagNode r j)
    (fun r j => by simp)
    (fun w hw d hd r j => by
      rw [foldQuarter_eq cache parent t w d r j hw, hd]
      by_cases hnow : t = r.val ∧ j.val / 4 = w
      · rw [if_pos hnow, if_neg (by omega), if_pos (by omega)]
      · rw [if_neg hnow]
        exact if_congr (by omega) rfl rfl)
  funext r j
  rw [foldParent, hquarters r j]
  by_cases hturn : t = r.val
  · rw [if_pos ⟨hturn, by omega⟩, if_pos hturn]
    rfl
  · rw [if_neg fun h => hturn h.1, if_neg hturn]

/-- **A round** folds into every node its own parent. -/
theorem dagRound_eq (i : ℕ) (dagNode : Fin 4 → Hash 16) :
    dagRound cache node i dagNode = fun r =>
      fnv1Hash (dagNode r) (cache.item (parentIndices cache node i dagNode r).toNat) := by
  have hturns := @forLoop_inv (Fin 4 → Hash 16) (foldParent cache (parentIndices cache node i dagNode)) 4 dagNode
    (fun t d => ∀ r : Fin 4, d r = if r.val < t then
      fnv1Hash (dagNode r) (cache.item (parentIndices cache node i dagNode r).toNat) else dagNode r)
    (fun r => by simp)
    (fun t _ d hd r => by
      rw [foldParent_eq]
      simp only
      rw [hd]
      by_cases hturn : t = r.val
      · rw [if_pos hturn, if_neg (by omega), if_pos (by omega)]
      · rw [if_neg hturn]
        exact if_congr (by omega) rfl rfl)
  funext r
  rw [dagRound, hturns r, if_pos r.isLt]

/-- The nodes before the rounds. -/
theorem firstNodes_eq (r : Fin 4) : firstNodes sha cache node r = itemMix keccakf cache (node r).toNat 0 := by
  rw [firstNodes, sha.run_eq, toNat_umod_lightSize, itemMix_zero]

/-- **The four threads make the nodes of the CPU code.** -/
theorem calculateDagItem_eq (r : Fin 4) :
    calculateDagItem sha cache node r = calculateDatasetItem512 keccakf cache (node r).toNat := by
  have hrounds : ∀ r, forLoop (dagRound cache node) 256 (firstNodes sha cache node) r =
      itemMix keccakf cache (node r).toNat 256 := by
    refine forLoop_inv (fun i (d : Fin 4 → Hash 16) => ∀ r, d r = itemMix keccakf cache (node r).toNat i)
      (firstNodes_eq sha cache node) ?_
    intro i _ d hd r
    have hparent : (parentIndices cache node i d r).toNat = parentIndex keccakf cache (node r).toNat i := by
      rw [parentIndices, toNat_umod_lightSize, hd, parentIndex_toNat]
    rw [dagRound_eq, itemMix_succ]
    simp only
    rw [hparent, hd]
  rw [calculateDagItem, hrounds, sha.run_eq, calculateDatasetItem512_eq]
  rfl

end Kernel

section Launches

/-- The nodes of the four threads of a group. -/
def groupNodes (L : DagLaunch) (block thread : ℕ) : Fin 4 → BitVec 32 := fun r =>
  nodeIndex L block (thread / 4 * 4 + r)

/-- All four threads of a group go on. -/
def wholeGroup (dagSize : BitVec 32) (L : DagLaunch) (block thread : ℕ) : Bool :=
  (List.finRange 4).all fun r => passes dagSize (groupNodes L block thread r)

/-- No group of a launch is split by the range test. -/
def WholeGroups (dagSize : BitVec 32) (L : DagLaunch) : Prop :=
  ∀ block < L.gridSize, ∀ thread < L.blockSize, passes dagSize (nodeIndex L block thread) = true →
    wholeGroup dagSize L block thread = true

theorem groupNodes_self (L : DagLaunch) (block thread : ℕ) :
    groupNodes L block thread (Fin.ofNat 4 thread) = nodeIndex L block thread := by
  unfold groupNodes
  congr 1
  simp only [Fin.ofNat]
  omega

/-- The test compares the even number of an item and its neighbour. -/
theorem passes_iff (dagSize node : BitVec 32) : passes dagSize node = true ↔ node.toNat / 4 * 2 < dagSize.toNat := by
  have hmask : (~~~1 : BitVec 32).toNat = 4294967294 := by decide
  have hlt := node.isLt
  have hdiv : (node.toNat / 2 &&& 4294967294) / 2 ^ 1 = node.toNat / 4 := by
    rw [Nat.and_div_two_pow, show 4294967294 / 2 ^ 1 = 2 ^ 31 - 1 from rfl, Nat.and_two_pow_sub_one_eq_mod]
    omega
  have hmod : (node.toNat / 2 &&& 4294967294) % 2 ^ 1 = 0 := by
    rw [Nat.and_mod_two_pow, show 4294967294 % 2 ^ 1 = 0 from rfl, Nat.and_zero]
  have hmasked : (node >>> 1 &&& ~~~1).toNat = node.toNat / 4 * 2 := by
    rw [BitVec.toNat_and, hmask, BitVec.toNat_ushiftRight, Nat.shiftRight_eq_div_pow, pow_one]
    omega
  rw [passes, Bool.not_eq_true', decide_eq_false_iff_not, ge_iff_le, BitVec.le_def, hmasked, Nat.not_le]

theorem toNat_nodeIndex (L : DagLaunch) (block thread : ℕ) :
    (nodeIndex L block thread).toNat = (L.start.toNat + block * L.blockSize + thread) % 2 ^ 32 := by
  simp only [nodeIndex, BitVec.toNat_add, BitVec.toNat_mul, BitVec.toNat_ofNat, Nat.add_mod_mod, Nat.mod_add_mod,
    ← Nat.mul_mod]

/-- The threads of an aligned group are in the same two items. -/
theorem toNat_groupNodes_div {L : DagLaunch} (hstart : 4 ∣ L.start.toNat) (hblock : 4 ∣ L.blockSize) (block thread : ℕ)
    (r : Fin 4) : (groupNodes L block thread r).toNat / 4 = (nodeIndex L block thread).toNat / 4 := by
  obtain ⟨a, ha⟩ := hstart
  obtain ⟨b, hb⟩ := hblock
  rw [groupNodes, toNat_nodeIndex, toNat_nodeIndex, ha, hb, Nat.mul_left_comm]
  omega

/-- **Aligned groups are whole.** -/
theorem wholeGroups_of_aligned (dagSize : BitVec 32) {L : DagLaunch} (hstart : 4 ∣ L.start.toNat)
    (hblock : 4 ∣ L.blockSize) : WholeGroups dagSize L := by
  intro block _ thread _ hpasses
  rw [wholeGroup, List.all_eq_true]
  intro r _
  rw [passes_iff, toNat_groupNodes_div hstart hblock]
  exact (passes_iff dagSize _).1 hpasses

variable {keccakf : State → State} (sha : Sha3512 keccakf) (cache : LightCache) (dagSize : BitVec 32)

/-- What a thread that goes on stores; `stale` if others of its group have returned. -/
def storedNode (stale : ℕ → ℕ → Hash 16) (L : DagLaunch) (block thread : ℕ) : Hash 16 :=
  if wholeGroup dagSize L block thread then
    calculateDagItem sha cache (groupNodes L block thread) (Fin.ofNat 4 thread)
  else stale block thread

/-- The stores of a thread to `dag_nodes`. -/
def threadStores (stale : ℕ → ℕ → Hash 16) (L : DagLaunch) (block thread : ℕ) : List (ℕ × Hash 16) :=
  if passes dagSize (nodeIndex L block thread) then
    [((nodeIndex L block thread).toNat, storedNode sha cache dagSize stale L block thread)]
  else []

/-- The stores of a launch. -/
def launchStores (stale : ℕ → ℕ → Hash 16) (L : DagLaunch) : List (ℕ × Hash 16) :=
  (List.range L.gridSize).flatMap fun block =>
    (List.range L.blockSize).flatMap (threadStores sha cache dagSize stale L block)

/-- `dag_nodes` after launches one after the other. -/
def runLaunches (launches : List (DagLaunch × (ℕ → ℕ → Hash 16))) (mem : ℕ → Hash 16) : ℕ → Hash 16 :=
  launches.foldl (fun mem L => store mem (launchStores sha cache dagSize L.2 L.1)) mem

/-- The item `p` of `d_dag`: two nodes. -/
def dagItem (mem : ℕ → Hash 16) (p : ℕ) : Hash 32 := hash1024 (mem (p * 2)) (mem (p * 2 + 1))

/-- A launch stores to the node `i`. -/
def StoresTo (L : DagLaunch) (i : ℕ) : Prop :=
  ∃ block < L.gridSize, ∃ thread < L.blockSize,
    passes dagSize (nodeIndex L block thread) = true ∧ (nodeIndex L block thread).toNat = i

theorem storedNode_eq (stale : ℕ → ℕ → Hash 16) {L : DagLaunch} {block thread : ℕ}
    (h : wholeGroup dagSize L block thread = true) :
    storedNode sha cache dagSize stale L block thread =
      calculateDatasetItem512 keccakf cache (nodeIndex L block thread).toNat := by
  rw [storedNode, if_pos h, calculateDagItem_eq, groupNodes_self]

theorem mem_launchStores {stale : ℕ → ℕ → Hash 16} {L : DagLaunch} {w : ℕ × Hash 16} :
    w ∈ launchStores sha cache dagSize stale L ↔ ∃ block < L.gridSize, ∃ thread < L.blockSize,
      passes dagSize (nodeIndex L block thread) = true ∧
        w = ((nodeIndex L block thread).toNat, storedNode sha cache dagSize stale L block thread) := by
  simp only [launchStores, threadStores, List.mem_flatMap, List.mem_range, List.mem_ite_nil_right, List.mem_singleton]

/-- What a launch of whole groups stores is right. -/
theorem launchStores_right (stale : ℕ → ℕ → Hash 16) {L : DagLaunch} (hwhole : WholeGroups dagSize L) :
    ∀ w ∈ launchStores sha cache dagSize stale L, w.2 = calculateDatasetItem512 keccakf cache w.1 := by
  intro w hw
  obtain ⟨block, hblock, thread, hthread, hpasses, rfl⟩ := (mem_launchStores sha cache dagSize).1 hw
  exact storedNode_eq sha cache dagSize stale (hwhole block hblock thread hthread hpasses)

/-- **Launches of whole groups, in any order and number**, leave the nodes they store to right, and those
that were right before. -/
theorem runLaunches_right (launches : List (DagLaunch × (ℕ → ℕ → Hash 16))) {mem : ℕ → Hash 16} {i : ℕ}
    (hwhole : ∀ L ∈ launches, WholeGroups dagSize L.1)
    (h : mem i = calculateDatasetItem512 keccakf cache i ∨ ∃ L ∈ launches, StoresTo dagSize L.1 i) :
    runLaunches sha cache dagSize launches mem i = calculateDatasetItem512 keccakf cache i := by
  induction launches generalizing mem with
  | nil =>
    obtain hright | ⟨L, hL, -⟩ := h
    · exact hright
    · exact absurd hL List.not_mem_nil
  | cons L₀ launches ih =>
    have hright₀ := launchStores_right sha cache dagSize L₀.2 (hwhole L₀ List.mem_cons_self)
    refine ih (fun L hL => hwhole L (List.mem_cons_of_mem _ hL)) ?_
    by_cases hlater : ∃ L ∈ launches, StoresTo dagSize L.1 i
    · exact Or.inr hlater
    · refine Or.inl (store_of_right hright₀ (h.imp_right ?_))
      rintro ⟨L, hL, hstores⟩
      obtain rfl | hL := List.mem_cons.1 hL
      · obtain ⟨block, hblock, thread, hthread, hpasses, rfl⟩ := hstores
        exact ⟨_, (mem_launchStores sha cache dagSize).2 ⟨block, hblock, thread, hthread, hpasses, rfl⟩⟩
      · exact absurd ⟨L, hL, hstores⟩ hlater

/-- **The CUDA DAG is the dataset of the CPU code.**  A thread of a group whose four threads pass the
range test stores the node of its index; and after launches without split groups that store to both
nodes of an item, the item is that of `calculate_dataset_item_1024`. -/
theorem cuda_dag_agrees :
    (∀ (stale : ℕ → ℕ → Hash 16) (L : DagLaunch) (block thread : ℕ),
      (∀ r, passes dagSize (groupNodes L block thread r) = true) →
      threadStores sha cache dagSize stale L block thread =
        [((nodeIndex L block thread).toNat,
          calculateDatasetItem512 keccakf cache (nodeIndex L block thread).toNat)]) ∧
    ∀ (launches : List (DagLaunch × (ℕ → ℕ → Hash 16))) (mem : ℕ → Hash 16) (p : ℕ),
      (∀ L ∈ launches, WholeGroups dagSize L.1) →
      (∃ L ∈ launches, StoresTo dagSize L.1 (p * 2)) → (∃ L ∈ launches, StoresTo dagSize L.1 (p * 2 + 1)) →
      dagItem (runLaunches sha cache dagSize launches mem) p = calculateDatasetItem1024 keccakf cache p := by
  refine ⟨fun stale L block thread h => ?_, fun launches mem p hwhole hfirst hsecond => ?_⟩
  · have hwhole : wholeGroup dagSize L block thread = true := List.all_eq_true.2 fun r _ => h r
    have hown : passes dagSize (nodeIndex L block thread) = true := by
      rw [← groupNodes_self]
      exact h _
    rw [threadStores, if_pos hown, storedNode_eq sha cache dagSize stale hwhole]
  · rw [dagItem, calculateDatasetItem1024_eq, runLaunches_right sha cache dagSize launches hwhole (Or.inr hfirst),
      runLaunches_right sha cache dagSize launches hwhole (Or.inr hsecond)]

/-- One block of 32 threads makes the items of a dataset of 16, here for the identity in the place of the
permutation and a cache of one item. -/
theorem cuda_dag_agrees_oneBlock :
    let sha : Sha3512 id := ⟨fun node => keccak512 id (bytes node), fun _ => rfl⟩
    let cache : LightCache := ⟨fun _ _ => 0, 1, Nat.one_pos, Nat.one_lt_two_pow_iff.2 (Nat.succ_ne_zero 31)⟩
    let launches : List (DagLaunch × (ℕ → ℕ → Hash 16)) := [(⟨0, 1, 32⟩, fun _ _ _ => 0)]
    dagItem (runLaunches sha cache 16 launches fun _ _ => 0) 15 = calculateDatasetItem1024 id cache 15 := by
  intro sha cache launches
  have hmem : (⟨0, 1, 32⟩, fun _ _ _ => 0) ∈ launches := List.mem_singleton.2 rfl
  refine (cuda_dag_agrees sha cache 16).2 launches _ 15 ?_ ?_ ?_
  · intro L hL
    obtain rfl := List.mem_singleton.1 hL
    exact wholeGroups_of_aligned 16 (by decide) (by decide)
  · exact ⟨_, hmem, 0, by decide, 30, by decide, by decide, by decide⟩
  · exact ⟨_, hmem, 0, by decide, 31, by decide, by decide, by decide⟩

end Launches

end Cuda
end EtcMiner
