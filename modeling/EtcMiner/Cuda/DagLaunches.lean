/-
# The launches that generate the CUDA DAG

`ethash_generate_dag` in `libcuda/ethash_cuda_miner_kernel.cu`, called by `CUDAMiner::initEpoch` with the
block multiple as grid size.  Launches of `run = gridSize * blockSize` threads stride through the nodes
while a whole one fits, and a shorter one makes the rest.  The bound `work - run` and the step
`base += run` are 32-bit unsigned arithmetic.

When the loop ends, every node of the dataset is stored (`storesTo_of_ends`), and the items are those of
the CPU code (`generateDag_items`, `generateDag_holds`).  But for a launch larger than the dataset, `run > work`, the bound wraps
and the loop goes around the 32-bit range; it meets the multiples of `gcd(run, 2^32)` only, and ends
exactly if one of them is past the bound (`ends_iff`).  And for an odd number of items the kernel's
range test, which keeps the threads of two items together, lets the two nodes after the dataset pass.
`cudaDag_written_iff` says when the loop ends and stores to the nodes of the dataset and no others.
-/

import EtcMiner.Cuda.GenerateDag
import EtcMiner.Lib.StrideLoop

namespace EtcMiner
namespace Cuda

open Lib Ethash

/-- `ethash_generate_dag`: the launches it makes; `none` if `fuel` rounds do not end its loop. -/
def ethashGenerateDag (fuel dagSize : ℕ) (gridSize blockSize : BitVec 32) : Option (List DagLaunch) :=
  let work := BitVec.ofNat 32 (dagSize / 64)
  let run := gridSize * blockSize
  (strideLoop (work - run) run fuel 0).map fun r =>
    let base := r.2
    let lastGrid := (work - base + blockSize - 1) / blockSize
    (r.1.map fun base => ⟨base, gridSize.toNat, blockSize.toNat⟩) ++
      if base < work then [⟨base, lastGrid.toNat, blockSize.toNat⟩] else []

/-- A dataset and the sizes its DAG is generated with. -/
structure DagSettings where
  items : ℕ
  gridSize : ℕ
  blockSize : ℕ
  items_pos : 0 < items
  nodes_lt : items * 2 < 2 ^ 32
  gridSize_pos : 0 < gridSize
  blockSize_mem : blockSize ∈ [32, 64, 128, 256]
  run_lt : gridSize * blockSize < 2 ^ 32

namespace DagSettings

variable (S : DagSettings)

/-- The threads of a whole launch. -/
def run : ℕ := S.gridSize * S.blockSize

/-- `d_dag_size`. -/
def dagSize : BitVec 32 := BitVec.ofNat 32 S.items

/-- The launches for the dataset, of 128 bytes an item. -/
def launches (fuel : ℕ) : Option (List DagLaunch) :=
  ethashGenerateDag fuel (S.items * 128) (BitVec.ofNat 32 S.gridSize) (BitVec.ofNat 32 S.blockSize)

/-- The loop ends, and the launches store to every node of the dataset and to no other. -/
def WritesDag : Prop :=
  ∃ fuel launches, S.launches fuel = some launches ∧
    (∀ i < S.items * 2, ∃ L ∈ launches, StoresTo S.dagSize L i) ∧
    ∀ L ∈ launches, ∀ i, StoresTo S.dagSize L i → i < S.items * 2

end DagSettings

/-- Only nodes that pass the test are stored to. -/
theorem StoresTo.passes {dagSize : BitVec 32} {L : DagLaunch} {i : ℕ} (h : StoresTo dagSize L i) :
    i / 4 * 2 < dagSize.toNat := by
  obtain ⟨block, -, thread, -, hpasses, rfl⟩ := h
  exact (passes_iff dagSize _).1 hpasses

/-- A launch that does not wrap stores to the nodes of its range that pass the test. -/
theorem storesTo_of_range {dagSize : BitVec 32} {L : DagLaunch} {i : ℕ}
    (hfits : L.start.toNat + L.gridSize * L.blockSize ≤ 2 ^ 32) (hfrom : L.start.toNat ≤ i)
    (hto : i < L.start.toNat + L.gridSize * L.blockSize) (hpasses : i / 4 * 2 < dagSize.toNat) : StoresTo dagSize L i := by
  have hpos : 0 < L.blockSize := by
    rcases Nat.eq_zero_or_pos L.blockSize with hzero | hpos
    · rw [hzero, Nat.mul_zero] at hto
      omega
    · exact hpos
  have hdiv := Nat.div_add_mod' (i - L.start.toNat) L.blockSize
  have hindex : (nodeIndex L ((i - L.start.toNat) / L.blockSize) ((i - L.start.toNat) % L.blockSize)).toNat = i := by
    rw [toNat_nodeIndex, Nat.add_assoc, hdiv]
    omega
  refine ⟨(i - L.start.toNat) / L.blockSize, ?_, (i - L.start.toNat) % L.blockSize, Nat.mod_lt _ hpos, ?_, hindex⟩
  · exact (Nat.div_lt_iff_lt_mul hpos).2 (by omega)
  · rwa [passes_iff, hindex]

namespace DagSettings

variable (S : DagSettings)

theorem blockSize_cases : S.blockSize = 32 ∨ S.blockSize = 64 ∨ S.blockSize = 128 ∨ S.blockSize = 256 := by
  have hmem := S.blockSize_mem
  simpa using hmem

/-- `work`. -/
theorem toNat_work : (BitVec.ofNat 32 (S.items * 128 / 64)).toNat = S.items * 2 := by
  have hlt := S.nodes_lt
  rw [BitVec.toNat_ofNat]
  omega

theorem toNat_dagSize : S.dagSize.toNat = S.items := by
  have hlt := S.nodes_lt
  rw [dagSize, BitVec.toNat_ofNat]
  omega

theorem toNat_run : (BitVec.ofNat 32 S.gridSize * BitVec.ofNat 32 S.blockSize).toNat = S.run := by
  rw [BitVec.toNat_mul, BitVec.toNat_ofNat, BitVec.toNat_ofNat, ← Nat.mul_mod]
  exact Nat.mod_eq_of_lt S.run_lt

theorem run_pos : 0 < S.run := by
  have hblock := S.blockSize_cases
  exact Nat.mul_pos S.gridSize_pos (by omega)

theorem toNat_blockSize : (BitVec.ofNat 32 S.blockSize).toNat = S.blockSize := by
  have hblock := S.blockSize_cases
  rw [BitVec.toNat_ofNat]
  omega

theorem toNat_gridSize : (BitVec.ofNat 32 S.gridSize).toNat = S.gridSize := by
  have hblock := S.blockSize_cases
  have hle : S.gridSize * 1 ≤ S.gridSize * S.blockSize := Nat.mul_le_mul_left _ (by omega)
  have hlt := S.run_lt
  rw [BitVec.toNat_ofNat]
  omega

/-- `work` and `run` as words. -/
def workWord : BitVec 32 := BitVec.ofNat 32 (S.items * 128 / 64)

def runWord : BitVec 32 := BitVec.ofNat 32 S.gridSize * BitVec.ofNat 32 S.blockSize

/-- The launches of the loop, and the one of the rest. -/
def launchesOf (r : List (BitVec 32) × BitVec 32) : List DagLaunch :=
  (r.1.map fun base => ⟨base, S.gridSize, S.blockSize⟩) ++
    if r.2 < S.workWord then
      [⟨r.2, ((S.workWord - r.2 + BitVec.ofNat 32 S.blockSize - 1) / BitVec.ofNat 32 S.blockSize).toNat, S.blockSize⟩]
    else []

theorem launches_eq (fuel : ℕ) :
    S.launches fuel = (strideLoop (S.workWord - S.runWord) S.runWord fuel 0).map S.launchesOf := by
  unfold launches ethashGenerateDag launchesOf
  rw [S.toNat_blockSize, S.toNat_gridSize]
  rfl

/-- **The loop ends** if a launch fits, or if going around it meets a value past the bound. -/
theorem ends_iff : (∃ fuel r, strideLoop (S.workWord - S.runWord) S.runWord fuel 0 = some r) ↔
    S.run ≤ S.items * 2 ∨ Nat.gcd S.run (2 ^ 32) < S.run - S.items * 2 := by
  have hrun : S.runWord.toNat = S.run := S.toNat_run
  have hwork : S.workWord.toNat = S.items * 2 := S.toNat_work
  have hlt : S.run < 2 ^ 32 := S.run_lt
  rw [exists_comm]
  rcases Nat.lt_or_ge (S.items * 2) S.run with hwraps | hfits
  · have hlimit : (S.workWord - S.runWord).toNat = 2 ^ 32 - (S.run - S.items * 2) := by
      rw [BitVec.toNat_sub, hrun, hwork]
      omega
    have hends := exists_strideAt_gt_iff (S.workWord - S.runWord) S.runWord
    rw [hlimit, hrun] at hends
    simp only [exists_strideLoop_iff]
    constructor
    · rintro ⟨r, k, -, hstop, -⟩
      have := hends.1 ⟨k, hstop⟩
      omega
    · intro h
      obtain ⟨k, hgo, hstop⟩ := exists_strideLoop_of_gt (hends.2 (by omega))
      exact ⟨_, k, hgo, hstop, rfl⟩
  · refine ⟨fun _ => Or.inl hfits, fun _ => ?_⟩
    exact ⟨_, (strideLoop_of_le (by rw [hrun]; exact S.run_pos) (by rw [hrun, hwork]; exact hfits) _).2 rfl⟩

/-- **The launches reach every node of the dataset**, and for an odd number of items the next one. -/
theorem exists_launch {fuel : ℕ} {r : List (BitVec 32) × BitVec 32}
    (h : strideLoop (S.workWord - S.runWord) S.runWord fuel 0 = some r) {i : ℕ}
    (hi : i < S.items * 2 ∨ i = S.items * 2 ∧ ¬ 2 ∣ S.items) :
    ∃ L ∈ S.launchesOf r, L.start.toNat + L.gridSize * L.blockSize ≤ 2 ^ 32 ∧
      L.start.toNat ≤ i ∧ i < L.start.toNat + L.gridSize * L.blockSize := by
  have hrun : S.runWord.toNat = S.gridSize * S.blockSize := S.toNat_run
  have hwork : S.workWord.toNat = S.items * 2 := S.toNat_work
  have hpos : 0 < S.runWord.toNat := hrun ▸ S.run_pos
  have hlt := S.run_lt
  have hnodes := S.nodes_lt
  have hblock := S.blockSize_cases
  rcases Nat.lt_or_ge S.workWord.toNat S.runWord.toNat with hwraps | hfits
  -- A launch larger than the dataset: the first one covers it.
  · obtain ⟨k, -, hstop, rfl⟩ := (exists_strideLoop_iff _ _ _ _).1 ⟨fuel, h⟩
    have hk : 0 < k := by
      rcases Nat.eq_zero_or_pos k with rfl | hk
      · rw [strideAt_zero] at hstop
        exact absurd hstop BitVec.not_lt_zero
      · exact hk
    have hfirst : (0 : BitVec 32) ∈ (strides S.runWord 0 k).1 :=
      List.mem_map.2 ⟨0, List.mem_range.2 hk, strideAt_zero _ _⟩
    refine ⟨⟨0, S.gridSize, S.blockSize⟩, List.mem_append_left _ (List.mem_map.2 ⟨0, hfirst, rfl⟩), ?_⟩
    simp only [show (0 : BitVec 32).toNat = 0 from rfl]
    omega
  · obtain rfl := (strideLoop_of_le hpos hfits r).1 ⟨fuel, h⟩
    rcases Nat.lt_or_ge i (S.workWord.toNat / S.runWord.toNat * S.runWord.toNat) with hwhole | hrest
    -- A node of a whole launch.
    · obtain ⟨base, hbase, hfrom, hto⟩ := exists_mem_strides hpos hwhole
      have hwithin := add_le_of_mem_strides hbase
      refine ⟨⟨base, S.gridSize, S.blockSize⟩, List.mem_append_left _ (List.mem_map.2 ⟨base, hbase, rfl⟩), ?_⟩
      dsimp only
      omega
    -- A node of the rest; a launch for the rest is made for the node after the dataset, because the whole
    -- ones end at a multiple of four.
    · have hlast : (strides S.runWord 0 (S.workWord.toNat / S.runWord.toNat)).2.toNat =
          S.workWord.toNat / S.runWord.toNat * S.runWord.toNat := toNat_strideAt_of_le le_rfl
      have hfloor : S.workWord.toNat / S.runWord.toNat * S.runWord.toNat ≤ S.workWord.toNat := Nat.div_mul_le_self _ _
      have hceil := Nat.lt_div_mul_add (a := S.workWord.toNat) hpos
      have hone := Nat.mul_le_mul_right S.runWord.toNat ((Nat.one_le_div_iff hpos).2 hfits)
      have hdvd : S.blockSize ∣ S.workWord.toNat / S.runWord.toNat * S.runWord.toNat :=
        (hrun ▸ Nat.dvd_mul_left S.blockSize S.gridSize : S.blockSize ∣ S.runWord.toNat).mul_left _
      generalize S.workWord.toNat / S.runWord.toNat * S.runWord.toNat = last at hlast hfloor hceil hone hdvd hrest
      have hfour : 4 ∣ S.blockSize := by omega
      have hparity : ¬ 2 ∣ S.items → ¬ S.blockSize ∣ S.workWord.toNat := by
        intro hodd hblockdvd
        have := hfour.trans hblockdvd
        omega
      have hneeded : last < S.workWord.toNat := by
        rcases hi with hi | ⟨hi, hodd⟩
        · omega
        · exact lt_of_le_of_ne hfloor fun heq => hparity hodd (heq ▸ hdvd)
      obtain ⟨hfit, hreach, hexact⟩ :=
        restBlocks_range (m := 2 ^ 32) (by omega) (by obtain hb | hb | hb | hb := hblock <;> rw [hb] <;> decide) hdvd hneeded (by omega)
      unfold launchesOf
      rw [if_pos (BitVec.lt_def.2 (hlast ▸ hneeded))]
      refine ⟨_, List.mem_append_right _ (List.mem_singleton.2 rfl), ?_⟩
      dsimp only
      rw [toNat_restBlocks (by omega) (by rw [S.toNat_blockSize]; omega) (by rw [S.toNat_blockSize]; omega),
        S.toNat_blockSize, hlast]
      rcases hi with hi | ⟨hi, hodd⟩
      · omega
      · have hpast := mt hexact.1 (hparity hodd)
        omega

/-- The nodes that pass the test: those of the dataset, and for an odd number of items the next two. -/
theorem passes_iff_lt (i : ℕ) : i / 4 * 2 < S.dagSize.toNat ↔ i < S.items * 2 + if 2 ∣ S.items then 0 else 2 := by
  rw [S.toNat_dagSize]
  split_ifs <;> omega

/-- **When the loop ends, every node of the dataset is stored**, and for an odd number of items the next
one too. -/
theorem storesTo_of_ends {fuel : ℕ} {r : List (BitVec 32) × BitVec 32}
    (h : strideLoop (S.workWord - S.runWord) S.runWord fuel 0 = some r) {i : ℕ}
    (hi : i < S.items * 2 ∨ i = S.items * 2 ∧ ¬ 2 ∣ S.items) : ∃ L ∈ S.launchesOf r, StoresTo S.dagSize L i := by
  obtain ⟨L, hL, hfits, hfrom, hto⟩ := S.exists_launch h hi
  refine ⟨L, hL, storesTo_of_range hfits hfrom hto ((S.passes_iff_lt i).2 ?_)⟩
  split_ifs <;> omega

/-- With an odd number of items the launches store past the dataset. -/
theorem not_writesDag_of_odd (hodd : ¬ 2 ∣ S.items) : ¬ S.WritesDag := by
  rintro ⟨fuel, launches, hlaunches, -, hinside⟩
  rw [launches_eq, Option.map_eq_some_iff] at hlaunches
  obtain ⟨r, hr, rfl⟩ := hlaunches
  obtain ⟨L, hL, hstores⟩ := S.storesTo_of_ends hr (Or.inr ⟨rfl, hodd⟩)
  exact absurd (hinside L hL _ hstores) (lt_irrefl _)

/-- With a launch larger than the dataset, but by too little, the loop does not end. -/
theorem launches_eq_none (h : ¬ (S.run ≤ S.items * 2 ∨ Nat.gcd S.run (2 ^ 32) < S.run - S.items * 2)) (fuel : ℕ) :
    S.launches fuel = none := by
  rw [launches_eq, Option.map_eq_none_iff, Option.eq_none_iff_forall_ne_some]
  intro r hr
  exact h (S.ends_iff.1 ⟨fuel, r, hr⟩)

/-- **When the CUDA DAG is generated.**  The loop of `ethash_generate_dag` ends, and its launches store to
every node of the dataset and to no other, exactly if the number of items is even and a launch is not
larger than the dataset or larger by more than `gcd(run, 2^32)`. -/
theorem cudaDag_written_iff : S.WritesDag ↔
    2 ∣ S.items ∧ (S.run ≤ S.items * 2 ∨ Nat.gcd S.run (2 ^ 32) < S.run - S.items * 2) := by
  constructor
  · intro hwrites
    refine ⟨by_contra fun hodd => S.not_writesDag_of_odd hodd hwrites, by_contra fun hendless => ?_⟩
    obtain ⟨fuel, launches, hlaunches, -⟩ := hwrites
    rw [S.launches_eq_none hendless] at hlaunches
    exact absurd hlaunches (by simp)
  · rintro ⟨heven, hends⟩
    obtain ⟨fuel, r, hr⟩ := S.ends_iff.2 hends
    refine ⟨fuel, S.launchesOf r, ?_, fun i hi => S.storesTo_of_ends hr (Or.inl hi), fun L _ i hstores => ?_⟩
    · rw [launches_eq, hr]
      rfl
    · have hlt := (S.passes_iff_lt i).1 hstores.passes
      rwa [if_pos heven] at hlt

/-- 17 items in launches of 32 threads: the second launch, for the nodes 32 and 33, stores to the nodes 34
and 35 as well.  Two items in a launch of 32 threads: the bound is `4 - 32`, which is `2^32 - 28`, and
no multiple of 32 is past it. -/
theorem generateDag_fails :
    (∃ S : DagSettings, S.items = 17 ∧ S.gridSize = 1 ∧ S.blockSize = 32 ∧
      S.launches 2 = some [⟨0, 1, 32⟩, ⟨32, 1, 32⟩] ∧ StoresTo S.dagSize ⟨32, 1, 32⟩ 34 ∧ ¬ S.WritesDag) ∧
    ∃ S : DagSettings, S.items = 2 ∧ S.gridSize = 1 ∧ S.blockSize = 32 ∧ ∀ fuel, S.launches fuel = none := by
  refine ⟨⟨⟨17, 1, 32, by decide, by decide, by decide, by decide, by decide⟩, rfl, rfl, rfl, rfl, ?_, ?_⟩,
    ⟨⟨2, 1, 32, by decide, by decide, by decide, by decide, by decide⟩, rfl, rfl, rfl, ?_⟩⟩
  · exact ⟨0, by decide, 2, by decide, by decide, by decide⟩
  · exact not_writesDag_of_odd _ (by decide)
  · exact launches_eq_none _ (by decide)

/-- Every launch starts at a multiple of four. -/
theorem aligned_of_mem {fuel : ℕ} {r : List (BitVec 32) × BitVec 32}
    (h : strideLoop (S.workWord - S.runWord) S.runWord fuel 0 = some r) :
    ∀ L ∈ S.launchesOf r, 4 ∣ L.start.toNat ∧ 4 ∣ L.blockSize := by
  have hblock : 4 ∣ S.blockSize := by
    have hcases := S.blockSize_cases
    omega
  have hrun : S.runWord.toNat = S.run := S.toNat_run
  have hstart : ∀ j, 4 ∣ (strideAt S.runWord 0 j).toNat := by
    intro j
    rw [toNat_strideAt, hrun]
    exact (Nat.dvd_mod_iff (by decide)).2 (((hblock.mul_left S.gridSize)).mul_left j)
  obtain ⟨k, -, -, rfl⟩ := (exists_strideLoop_iff _ _ _ _).1 ⟨fuel, h⟩
  intro L hL
  obtain hwhole | hrest := List.mem_append.1 hL
  · obtain ⟨base, hbase, rfl⟩ := List.mem_map.1 hwhole
    obtain ⟨j, -, rfl⟩ := List.mem_map.1 hbase
    exact ⟨hstart j, hblock⟩
  · obtain ⟨-, hrest⟩ := List.mem_ite_nil_right.1 hrest
    obtain rfl := List.mem_singleton.1 hrest
    exact ⟨hstart k, hblock⟩

/-- **The DAG is the dataset when the loop ends**, for odd and even numbers of items. -/
theorem generateDag_items {keccakf : State → State} (sha : Sha3512 keccakf) (cache : LightCache) {fuel : ℕ}
    {launches : List DagLaunch} (h : S.launches fuel = some launches) (stale : DagLaunch → ℕ → ℕ → Hash 16)
    (mem : ℕ → Hash 16) {p : ℕ} (hp : p < S.items) :
    dagItem (runLaunches sha cache S.dagSize (launches.map fun L => (L, stale L)) mem) p =
      calculateDatasetItem1024 keccakf cache p := by
  rw [launches_eq, Option.map_eq_some_iff] at h
  obtain ⟨r, hr, rfl⟩ := h
  have hwhole : ∀ L ∈ (S.launchesOf r).map fun L => (L, stale L), WholeGroups S.dagSize L.1 := by
    intro L hL
    obtain ⟨L', hL', rfl⟩ := List.mem_map.1 hL
    obtain ⟨hstart, hblock⟩ := S.aligned_of_mem hr L' hL'
    exact wholeGroups_of_aligned S.dagSize hstart hblock
  have hstored : ∀ i < S.items * 2, ∃ L ∈ (S.launchesOf r).map fun L => (L, stale L), StoresTo S.dagSize L.1 i := by
    intro i hi
    obtain ⟨L, hL, hstores⟩ := S.storesTo_of_ends hr (Or.inl hi)
    exact ⟨(L, stale L), List.mem_map.2 ⟨L, hL, rfl⟩, hstores⟩
  rw [dagItem, calculateDatasetItem1024_eq,
    runLaunches_right sha cache S.dagSize _ hwhole (Or.inr (hstored (p * 2) (by omega))),
    runLaunches_right sha cache S.dagSize _ hwhole (Or.inr (hstored (p * 2 + 1) (by omega)))]

/-- **`ethash_generate_dag` makes the dataset** for every number of items, unless a launch is larger than the
dataset by too little. -/
theorem generateDag_holds {keccakf : State → State} (sha : Sha3512 keccakf) (cache : LightCache)
    (hends : S.run ≤ S.items * 2 ∨ Nat.gcd S.run (2 ^ 32) < S.run - S.items * 2) (stale : DagLaunch → ℕ → ℕ → Hash 16)
    (mem : ℕ → Hash 16) :
    ∃ fuel launches, S.launches fuel = some launches ∧ ∀ p < S.items,
      dagItem (runLaunches sha cache S.dagSize (launches.map fun L => (L, stale L)) mem) p =
        calculateDatasetItem1024 keccakf cache p := by
  obtain ⟨fuel, r, hr⟩ := S.ends_iff.2 hends
  have hlaunches : S.launches fuel = some (S.launchesOf r) := by
    rw [launches_eq, hr]
    rfl
  exact ⟨fuel, _, hlaunches, fun p hp => S.generateDag_items sha cache hlaunches stale mem hp⟩

/-- The 17 items of `generateDag_fails`, for the identity in the place of the permutation. -/
theorem generateDag_holds_odd :
    let sha : Sha3512 id := ⟨fun node => keccak512 id (bytes node), fun _ => rfl⟩
    let cache : LightCache := ⟨fun _ _ => 0, 1, Nat.one_pos, Nat.one_lt_two_pow_iff.2 (Nat.succ_ne_zero 31)⟩
    ∃ S : DagSettings, S.items = 17 ∧ S.gridSize = 1 ∧ S.blockSize = 32 ∧
      ∃ fuel launches, S.launches fuel = some launches ∧ ∀ p < 17,
        dagItem (runLaunches sha cache S.dagSize (launches.map fun L => (L, fun _ _ _ => 0)) fun _ _ => 0) p =
          calculateDatasetItem1024 id cache p := by
  intro sha cache
  let S : DagSettings := ⟨17, 1, 32, by decide, by decide, by decide, by decide, by decide⟩
  exact ⟨S, rfl, rfl, rfl, S.generateDag_holds sha cache (.inl (by decide)) (fun _ _ _ _ => 0) fun _ _ => 0⟩

end DagSettings

end Cuda
end EtcMiner
