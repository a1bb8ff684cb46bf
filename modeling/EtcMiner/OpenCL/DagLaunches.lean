/-
# The launches that generate the OpenCL DAG

The end of `CLMiner::initEpoch` in `libcl/CLMiner.cpp`: launches of `chunk` work-items stride through the
nodes, and one more makes the rest, in 32-bit unsigned arithmetic.  `chunk` is the group size times the
block multiple, or the number of nodes if that is less.  A launch may fail: without uneven work-groups
the runtime rejects a number of work-items that is not a multiple of the group size, and the exception
ends the initialisation (`Runtime`).

The kernel has no range test, so every work-item of a launch stores its node.  A node is within the
buffers of its layout exactly if it is one of the dataset (`inBuffers_iff`).  Since the launch of the rest
is rounded up to whole groups, its last items lie within the dataset only if the number of nodes is a
multiple of the group size; `openclDag_written_iff` says when the launches store the whole DAG and nothing else.

While nothing fails the launches are those of the model with unbounded numbers
(`dagLoop_eq_launchLoop`), so they leave the dataset in the buffers (`launches_hold_dataset`).
-/

import EtcMiner.Lib.StrideLoop
import EtcMiner.OpenCL.GenerateDag

namespace EtcMiner
namespace OpenCL

open Lib Ethash

/-- Which numbers of work-items the OpenCL runtime accepts for groups of `groupSize`: the multiples of it,
and perhaps others. -/
structure Runtime (groupSize : ℕ) where
  accepts : ℕ → Bool
  accepts_of_dvd : ∀ n, 0 < n → groupSize ∣ n → accepts n = true

/-- The loop of `initEpoch` and what follows it, from `start` on: the starts and sizes of the launches
that run; `none` if `fuel` rounds do not end it. -/
def dagLoop (accepts : ℕ → Bool) (workItems chunk clGroupSize : BitVec 32) :
    ℕ → BitVec 32 → Option (List (BitVec 32 × ℕ))
  | 0, _ => none
  | fuel + 1, start =>
    if start ≤ workItems - chunk then
      -- A rejected launch throws.
      if accepts chunk.toNat then
        (dagLoop accepts workItems chunk clGroupSize fuel (start + chunk)).map ((start, chunk.toNat) :: ·)
      else some []
    else if start < workItems then
      let groupsLeft := (workItems - start + clGroupSize - 1) / clGroupSize
      if accepts (groupsLeft * clGroupSize).toNat then some [(start, (groupsLeft * clGroupSize).toNat)] else some []
    else some []

/-- The launches of `initEpoch` for `dagItems` items. -/
def dagLaunches (accepts : ℕ → Bool) (fuel : ℕ) (dagItems clGroupSize blockMultiple : BitVec 32) :
    Option (List (BitVec 32 × ℕ)) :=
  let workItems := dagItems * 2
  let chunk := clGroupSize * blockMultiple
  let chunk := if chunk > workItems then workItems else chunk
  dagLoop accepts workItems chunk clGroupSize fuel 0

/-- The 64 bytes of the node `i` lie in the buffer it is stored to. -/
def InBuffers (splitDag : Bool) (dagNumItems : ℕ) (i : BitVec 32) : Prop :=
  64 * ((nodeSlot splitDag i).2 + 1) ≤ bufferSize splitDag dagNumItems (nodeSlot splitDag i).1

/-- A dataset and the sizes its DAG is generated with. -/
structure DagSettings where
  items : ℕ
  groupSize : ℕ
  blockMultiple : ℕ
  items_pos : 0 < items
  nodes_lt : items * 2 < 2 ^ 32
  groupSize_mem : groupSize ∈ [64, 128, 256]
  chunk_lt : groupSize * blockMultiple < 2 ^ 32

/-- `NodeIdx` of the work-item `gid` of a launch. -/
def itemNode (start : BitVec 32) (gid : ℕ) : BitVec 32 := start + BitVec.ofNat 32 gid

namespace DagSettings

variable (S : DagSettings)

/-- The launches for the dataset. -/
def launches (accepts : ℕ → Bool) (fuel : ℕ) : Option (List (BitVec 32 × ℕ)) :=
  dagLaunches accepts fuel (BitVec.ofNat 32 S.items) (BitVec.ofNat 32 S.groupSize) (BitVec.ofNat 32 S.blockMultiple)

/-- The loop ends, there is a work-item for every node of the dataset, and every work-item stores within
the buffers. -/
def WritesDag (accepts : ℕ → Bool) (splitDag : Bool) : Prop :=
  ∃ fuel launches, S.launches accepts fuel = some launches ∧
    (∀ i < S.items * 2, ∃ L ∈ launches, ∃ gid < L.2, itemNode L.1 gid = BitVec.ofNat 32 i) ∧
    ∀ L ∈ launches, ∀ gid < L.2, InBuffers splitDag S.items (itemNode L.1 gid)

end DagSettings

/-- The work-items of the kernel's model are those of a launch of whole groups. -/
theorem nodeIdx_eq_itemNode (B : DagBuild) (L : DagLaunch) (group l : ℕ) :
    nodeIdx B L group l = itemNode L.start (group * B.worksize + l) := rfl

/-- **A node is within the buffers if it is one of the dataset**, in both layouts. -/
theorem inBuffers_iff (splitDag : Bool) (dagNumItems : ℕ) (i : BitVec 32) :
    InBuffers splitDag dagNumItems i ↔ i.toNat < dagNumItems * 2 := by
  unfold InBuffers bufferSize
  cases splitDag with
  | false =>
    simp only [nodeSlot, Bool.false_eq_true, if_false]
    omega
  | true =>
    simp only [nodeSlot_true, if_true, Nat.and_one_is_mod, decide_eq_true_eq]
    split_ifs <;> omega

/-- Without a rejected launch the loop is the stride through the nodes. -/
theorem dagLoop_eq {accepts : ℕ → Bool} {workItems chunk clGroupSize : BitVec 32} (hchunk : accepts chunk.toNat = true)
    (fuel : ℕ) (start : BitVec 32) :
    dagLoop accepts workItems chunk clGroupSize fuel start =
      (strideLoop (workItems - chunk) chunk fuel start).map fun r =>
        (r.1.map fun base => (base, chunk.toNat)) ++
          if r.2 < workItems then
            let size := ((workItems - r.2 + clGroupSize - 1) / clGroupSize * clGroupSize).toNat
            if accepts size then [(r.2, size)] else []
          else [] := by
  induction fuel generalizing start with
  | zero => rfl
  | succ fuel ih =>
    unfold dagLoop strideLoop
    by_cases hwhole : start ≤ workItems - chunk
    · rw [if_pos hwhole, if_pos hchunk, if_pos hwhole, ih, Option.map_map, Option.map_map]
      rfl
    · rw [if_neg hwhole, if_neg hwhole]
      simp only [Option.map_some, List.map_nil, List.nil_append]
      split_ifs <;> rfl

/-- The node of a work-item, if it does not wrap. -/
theorem toNat_itemNode {start : BitVec 32} {gid : ℕ} (h : start.toNat + gid < 2 ^ 32) :
    (itemNode start gid).toNat = start.toNat + gid := by
  rw [itemNode, BitVec.toNat_add, BitVec.toNat_ofNat]
  omega

theorem exists_itemNode {start : BitVec 32} {size i : ℕ} (hfrom : start.toNat ≤ i) (hto : i < start.toNat + size)
    (hi : i < 2 ^ 32) : ∃ gid < size, itemNode start gid = BitVec.ofNat 32 i := by
  refine ⟨i - start.toNat, by omega, BitVec.eq_of_toNat_eq ?_⟩
  rw [toNat_itemNode (by omega), BitVec.toNat_ofNat]
  omega

namespace DagSettings

variable (S : DagSettings)

/-- `workItems`. -/
def workWord : BitVec 32 := BitVec.ofNat 32 S.items * 2

/-- `chunk`, at most the number of nodes. -/
def chunk : ℕ := if S.groupSize * S.blockMultiple > S.items * 2 then S.items * 2 else S.groupSize * S.blockMultiple

theorem groupSize_cases : S.groupSize = 64 ∨ S.groupSize = 128 ∨ S.groupSize = 256 := by
  have hmem := S.groupSize_mem
  simpa using hmem

theorem groupSize_dvd : S.groupSize ∣ 2 ^ 32 := by
  obtain hsize | hsize | hsize := S.groupSize_cases <;> rw [hsize] <;> decide

theorem toNat_work : S.workWord.toNat = S.items * 2 := by
  have hlt := S.nodes_lt
  have htwo : (2 : BitVec 32).toNat = 2 := rfl
  rw [workWord, BitVec.toNat_mul, BitVec.toNat_ofNat, htwo]
  omega

theorem toNat_groupSize : (BitVec.ofNat 32 S.groupSize).toNat = S.groupSize := by
  have hsize := S.groupSize_cases
  rw [BitVec.toNat_ofNat]
  omega

theorem toNat_product :
    (BitVec.ofNat 32 S.groupSize * BitVec.ofNat 32 S.blockMultiple).toNat = S.groupSize * S.blockMultiple := by
  rw [BitVec.toNat_mul, BitVec.toNat_ofNat, BitVec.toNat_ofNat, ← Nat.mul_mod]
  exact Nat.mod_eq_of_lt S.chunk_lt

theorem chunk_le : S.chunk ≤ S.items * 2 := by
  unfold chunk
  split_ifs <;> omega

theorem toNat_chunk : (BitVec.ofNat 32 S.chunk).toNat = S.chunk := by
  have hle := S.chunk_le
  have hlt := S.nodes_lt
  rw [BitVec.toNat_ofNat]
  omega

theorem launches_eq (accepts : ℕ → Bool) (fuel : ℕ) :
    S.launches accepts fuel =
      dagLoop accepts S.workWord (BitVec.ofNat 32 S.chunk) (BitVec.ofNat 32 S.groupSize) fuel 0 := by
  have hchunk : (if BitVec.ofNat 32 S.groupSize * BitVec.ofNat 32 S.blockMultiple > S.workWord then S.workWord
      else BitVec.ofNat 32 S.groupSize * BitVec.ofNat 32 S.blockMultiple) = BitVec.ofNat 32 S.chunk := by
    apply BitVec.eq_of_toNat_eq
    rw [S.toNat_chunk, chunk, apply_ite BitVec.toNat, S.toNat_work, S.toNat_product]
    refine if_congr ?_ rfl rfl
    rw [gt_iff_lt, BitVec.lt_def, S.toNat_work, S.toNat_product]
  rw [← hchunk]
  rfl

/-- The launches that run when those of a chunk are accepted. -/
def launchesOf (accepts : ℕ → Bool) (r : List (BitVec 32) × BitVec 32) : List (BitVec 32 × ℕ) :=
  (r.1.map fun base => (base, S.chunk)) ++
    if r.2 < S.workWord then
      let size := ((S.workWord - r.2 + BitVec.ofNat 32 S.groupSize - 1) / BitVec.ofNat 32 S.groupSize *
        BitVec.ofNat 32 S.groupSize).toNat
      if accepts size then [(r.2, size)] else []
    else []

/-- What the loop leaves to the launch of the rest. -/
def tiles : List (BitVec 32) × BitVec 32 := strides (BitVec.ofNat 32 S.chunk) 0 (S.items * 2 / S.chunk)

/-- **The loop ends** after the whole chunks, if they are accepted. -/
theorem launches_of_accepts {accepts : ℕ → Bool} (hpos : 0 < S.chunk) (hchunk : accepts S.chunk = true)
    (launches : List (BitVec 32 × ℕ)) :
    (∃ fuel, S.launches accepts fuel = some launches) ↔ launches = S.launchesOf accepts S.tiles := by
  have hends : ∀ r, (∃ fuel, strideLoop (S.workWord - BitVec.ofNat 32 S.chunk) (BitVec.ofNat 32 S.chunk) fuel 0 = some r) ↔
      r = S.tiles := by
    intro r
    rw [strideLoop_of_le (by rwa [S.toNat_chunk]) (by rw [S.toNat_chunk, S.toNat_work]; exact S.chunk_le), S.toNat_chunk,
      S.toNat_work]
    rfl
  have hfuel : ∀ fuel, S.launches accepts fuel =
      (strideLoop (S.workWord - BitVec.ofNat 32 S.chunk) (BitVec.ofNat 32 S.chunk) fuel 0).map (S.launchesOf accepts) := by
    intro fuel
    rw [launches_eq, dagLoop_eq (by rwa [S.toNat_chunk]), S.toNat_chunk]
    rfl
  constructor
  · rintro ⟨fuel, hlaunches⟩
    rw [hfuel, Option.map_eq_some_iff] at hlaunches
    obtain ⟨r, hr, rfl⟩ := hlaunches
    rw [(hends r).1 ⟨fuel, hr⟩]
  · rintro rfl
    obtain ⟨fuel, hr⟩ := (hends S.tiles).2 rfl
    exact ⟨fuel, by rw [hfuel, hr]; rfl⟩

/-- **A rejected chunk** ends the initialisation before anything runs, and one of size zero is repeated
for ever. -/
theorem not_writesDag_of_rejected {accepts : ℕ → Bool} (splitDag : Bool) (h : S.chunk = 0 ∨ accepts S.chunk = false) :
    ¬ S.WritesDag accepts splitDag := by
  rintro ⟨fuel, launches, hlaunches, hall, -⟩
  have hitems := S.items_pos
  obtain ⟨L, hL, -⟩ := hall 0 (by omega)
  rw [launches_eq] at hlaunches
  have hstart : ∀ limit : BitVec 32, (0 : BitVec 32) ≤ limit := fun limit => BitVec.le_def.2 (Nat.zero_le _)
  rcases Bool.eq_false_or_eq_true (accepts S.chunk) with haccepts | haccepts
  · have hzero : S.chunk = 0 := h.resolve_right (by rw [haccepts]; exact Bool.noConfusion)
    -- Every round is the first one again.
    have hnone : ∀ fuel, dagLoop accepts S.workWord (BitVec.ofNat 32 S.chunk) (BitVec.ofNat 32 S.groupSize) fuel 0 =
        none := by
      intro fuel
      induction fuel with
      | zero => rfl
      | succ fuel ih =>
        rw [dagLoop, if_pos (hstart _), S.toNat_chunk, if_pos haccepts, Option.map_eq_none_iff]
        rw [hzero] at ih ⊢
        exact ih
    rw [hnone] at hlaunches
    exact absurd hlaunches (by simp)
  · cases fuel with
    | zero => exact absurd hlaunches (by simp [dagLoop])
    | succ fuel =>
      rw [dagLoop, if_pos (hstart _), S.toNat_chunk, if_neg (by rw [haccepts]; decide)] at hlaunches
      obtain rfl := Option.some.inj hlaunches
      exact absurd hL List.not_mem_nil

theorem toNat_tiles_snd : S.tiles.2.toNat = S.items * 2 / S.chunk * S.chunk := by
  have hat := @toNat_strideAt_of_le 32 S.workWord (BitVec.ofNat 32 S.chunk) _ le_rfl
  rwa [S.toNat_work, S.toNat_chunk] at hat

/-- Whole chunks lie within the dataset. -/
theorem add_le_of_mem_tiles {base : BitVec 32} (h : base ∈ S.tiles.1) : base.toNat + S.chunk ≤ S.items * 2 := by
  have hle := @add_le_of_mem_strides 32 S.workWord (BitVec.ofNat 32 S.chunk) base
  rw [S.toNat_work, S.toNat_chunk] at hle
  exact hle h

/-- They leave no gap. -/
theorem exists_mem_tiles (hpos : 0 < S.chunk) {i : ℕ} (hi : i < S.tiles.2.toNat) :
    ∃ base ∈ S.tiles.1, base.toNat ≤ i ∧ i < base.toNat + S.chunk := by
  have htile := @exists_mem_strides 32 S.workWord (BitVec.ofNat 32 S.chunk) (by rwa [S.toNat_chunk]) i
  rw [S.toNat_work, S.toNat_chunk] at htile
  rw [S.toNat_tiles_snd] at hi
  exact htile hi

/-- The launch of the rest, in whole groups, when it is at most half of the dataset. -/
theorem toNat_restSize {start : BitVec 32} (hdvd : S.groupSize ∣ start.toNat) (hrest : start.toNat < S.items * 2)
    (hhalf : S.items * 2 - start.toNat ≤ start.toNat) :
    ((S.workWord - start + BitVec.ofNat 32 S.groupSize - 1) / BitVec.ofNat 32 S.groupSize *
        BitVec.ofNat 32 S.groupSize).toNat =
      (S.items * 2 - start.toNat + S.groupSize - 1) / S.groupSize * S.groupSize := by
  have hsize := S.groupSize_cases
  have hnodes := S.nodes_lt
  have hwork := S.toNat_work
  have hrange := (restBlocks_range (by omega) S.groupSize_dvd hdvd hrest hnodes).1
  rw [BitVec.toNat_mul, toNat_restBlocks (by omega) (by rw [S.toNat_groupSize]; omega)
    (by rw [S.toNat_groupSize]; omega), S.toNat_groupSize, hwork]
  exact Nat.mod_eq_of_lt (by omega)

/-- Less than a chunk is left, so at most half. -/
theorem rest_le_half (hpos : 0 < S.chunk) : S.items * 2 - S.tiles.2.toNat ≤ S.tiles.2.toNat := by
  have hlast := S.toNat_tiles_snd
  have hceil := Nat.lt_div_mul_add (a := S.items * 2) hpos
  have hone := Nat.mul_le_mul_right S.chunk ((Nat.one_le_div_iff hpos).2 S.chunk_le)
  omega

/-- The work-items of whole chunks store within the buffers. -/
theorem inBuffers_of_mem_tiles (splitDag : Bool) {base : BitVec 32} (h : base ∈ S.tiles.1) {gid : ℕ} (hgid : gid < S.chunk) :
    InBuffers splitDag S.items (itemNode base gid) := by
  have hnodes := S.nodes_lt
  have hwithin := S.add_le_of_mem_tiles h
  rw [inBuffers_iff, toNat_itemNode (by omega)]
  omega

/-- There is one for every node before the rest. -/
theorem exists_item_of_lt (accepts : ℕ → Bool) (hpos : 0 < S.chunk) {i : ℕ} (hi : i < S.tiles.2.toNat) :
    ∃ L ∈ S.launchesOf accepts S.tiles, ∃ gid < L.2, itemNode L.1 gid = BitVec.ofNat 32 i := by
  have hlt := S.tiles.2.isLt
  obtain ⟨base, hbase, hfrom, hto⟩ := S.exists_mem_tiles hpos hi
  exact ⟨(base, S.chunk), List.mem_append_left _ (List.mem_map.2 ⟨base, hbase, rfl⟩),
    exists_itemNode hfrom hto (by omega)⟩

/-- With nothing left only the whole chunks are launched. -/
theorem launchesOf_of_ge {accepts : ℕ → Bool} (h : S.items * 2 ≤ S.tiles.2.toNat) :
    S.launchesOf accepts S.tiles = S.tiles.1.map fun base => (base, S.chunk) := by
  unfold launchesOf
  rw [if_neg (BitVec.not_lt.2 (BitVec.le_def.2 (S.toNat_work.symm ▸ h))), List.append_nil]

/-- The size of the launch of the rest. -/
def restSize : ℕ := (S.items * 2 - S.tiles.2.toNat + S.groupSize - 1) / S.groupSize * S.groupSize

/-- Whole groups for the rest are accepted. -/
theorem launchesOf_of_lt (R : Runtime S.groupSize) (hpos : 0 < S.chunk) (hdvd : S.groupSize ∣ S.tiles.2.toNat)
    (h : S.tiles.2.toNat < S.items * 2) :
    S.launchesOf R.accepts S.tiles = (S.tiles.1.map fun base => (base, S.chunk)) ++ [(S.tiles.2, S.restSize)] := by
  have hgroup := S.groupSize_cases
  have hreach := (restBlocks_range (by omega) S.groupSize_dvd hdvd h S.nodes_lt).2.1
  have haccepts : R.accepts S.restSize = true := R.accepts_of_dvd _ (by unfold restSize; omega) (Nat.dvd_mul_left _ _)
  unfold launchesOf
  rw [if_pos (BitVec.lt_def.2 (S.toNat_work.symm ▸ h)), S.toNat_restSize hdvd h (S.rest_le_half hpos)]
  simp only
  rw [← restSize, if_pos haccepts]

/-- **With a rest** the DAG is written as it should be if its groups end with the dataset. -/
theorem writesDag_iff_of_rest (R : Runtime S.groupSize) (splitDag : Bool) (hpos : 0 < S.chunk)
    (hchunk : R.accepts S.chunk = true) (hdvd : S.groupSize ∣ S.tiles.2.toNat) (hrest : S.tiles.2.toNat < S.items * 2) :
    S.WritesDag R.accepts splitDag ↔ S.groupSize ∣ S.items * 2 := by
  have hgroup := S.groupSize_cases
  have hnodes := S.nodes_lt
  have hlaunches := S.launchesOf_of_lt R hpos hdvd hrest
  obtain ⟨hfit, hreach, hexact⟩ := restBlocks_range (by omega) S.groupSize_dvd hdvd hrest hnodes
  rw [← restSize] at hfit hreach hexact
  have hmem : (S.tiles.2, S.restSize) ∈ S.launchesOf R.accepts S.tiles := by
    rw [hlaunches]
    exact List.mem_append_right _ List.mem_cons_self
  rw [← hexact]
  constructor
  · rintro ⟨fuel, launches, hfuel, -, hall⟩
    obtain rfl := (S.launches_of_accepts hpos hchunk launches).1 ⟨fuel, hfuel⟩
    -- A launch past the dataset has an item for the first node after it.
    by_contra hpast
    have hstored := hall _ hmem (S.items * 2 - S.tiles.2.toNat) (by dsimp only; omega)
    dsimp only at hstored
    rw [inBuffers_iff, toNat_itemNode (by omega)] at hstored
    omega
  · intro hend
    obtain ⟨fuel, hfuel⟩ := (S.launches_of_accepts hpos hchunk _).2 rfl
    refine ⟨fuel, _, hfuel, fun i hi => ?_, fun L hL gid hgid => ?_⟩
    · rcases Nat.lt_or_ge i S.tiles.2.toNat with hwhole | hafter
      · exact S.exists_item_of_lt R.accepts hpos hwhole
      · exact ⟨_, hmem, exists_itemNode hafter (by dsimp only; omega) (by omega)⟩
    · rw [hlaunches] at hL
      obtain hwhole | hlaunch := List.mem_append.1 hL
      · obtain ⟨base, hbase, rfl⟩ := List.mem_map.1 hwhole
        exact S.inBuffers_of_mem_tiles splitDag hbase hgid
      · obtain rfl := List.mem_singleton.1 hlaunch
        dsimp only at hgid ⊢
        rw [inBuffers_iff, toNat_itemNode (by omega)]
        omega

/-- **Without a rest** it is. -/
theorem writesDag_of_no_rest {accepts : ℕ → Bool} (splitDag : Bool) (hpos : 0 < S.chunk) (hchunk : accepts S.chunk = true)
    (hnone : S.items * 2 ≤ S.tiles.2.toNat) : S.WritesDag accepts splitDag := by
  obtain ⟨fuel, hfuel⟩ := (S.launches_of_accepts hpos hchunk _).2 rfl
  refine ⟨fuel, _, hfuel, fun i hi => S.exists_item_of_lt accepts hpos (by omega), fun L hL gid hgid => ?_⟩
  rw [S.launchesOf_of_ge hnone] at hL
  obtain ⟨base, hbase, rfl⟩ := List.mem_map.1 hL
  exact S.inBuffers_of_mem_tiles splitDag hbase hgid

/-- A chunk that is the dataset leaves no rest. -/
theorem tiles_snd_of_eq (hpos : 0 < S.chunk) (h : S.chunk = S.items * 2) : S.tiles.2.toNat = S.items * 2 := by
  rw [S.toNat_tiles_snd, ← h, Nat.div_self hpos, Nat.one_mul]

/-- A chunk of whole groups leaves one unless it divides the dataset, which then makes whole groups. -/
theorem writesDag_iff_of_groups (R : Runtime S.groupSize) (splitDag : Bool) (hpos : 0 < S.chunk)
    (hmul : S.groupSize ∣ S.chunk) : S.WritesDag R.accepts splitDag ↔ S.groupSize ∣ S.items * 2 := by
  have hchunk := R.accepts_of_dvd S.chunk hpos hmul
  have hdvd : S.groupSize ∣ S.tiles.2.toNat := by
    rw [S.toNat_tiles_snd]
    exact hmul.mul_left _
  rcases Nat.lt_or_ge S.tiles.2.toNat (S.items * 2) with hrest | hnone
  · exact S.writesDag_iff_of_rest R splitDag hpos hchunk hdvd hrest
  · have hfloor : S.items * 2 / S.chunk * S.chunk ≤ S.items * 2 := Nat.div_mul_le_self _ _
    rw [← S.toNat_tiles_snd] at hfloor
    exact iff_of_true (S.writesDag_of_no_rest splitDag hpos hchunk hnone) (hnone.antisymm hfloor ▸ hdvd)

/-- **When the OpenCL DAG is generated.**  On a runtime that accepts whole groups, the launches of `initEpoch`
have a work-item for every node of the dataset and store nothing outside the buffers exactly if the
block multiple is not zero and the nodes make whole groups, or they are fewer than a chunk and the
runtime accepts a launch of that size. -/
theorem openclDag_written_iff (R : Runtime S.groupSize) (splitDag : Bool) :
    S.WritesDag R.accepts splitDag ↔
      0 < S.blockMultiple ∧ (S.groupSize ∣ S.items * 2 ∨
        S.items * 2 < S.groupSize * S.blockMultiple ∧ R.accepts (S.items * 2) = true) := by
  have hitems := S.items_pos
  have hsize := S.groupSize_cases
  rcases Nat.eq_zero_or_pos S.blockMultiple with hzero | hpos
  · have hchunk : S.chunk = 0 := by
      unfold chunk
      rw [hzero, Nat.mul_zero, if_neg (by omega)]
    refine iff_of_false (S.not_writesDag_of_rejected splitDag (Or.inl hchunk)) fun h => ?_
    omega
  · have hproduct : 0 < S.groupSize * S.blockMultiple := Nat.mul_pos (by omega) hpos
    rcases Nat.lt_or_ge (S.items * 2) (S.groupSize * S.blockMultiple) with hsmall | hfits
    · have hchunk : S.chunk = S.items * 2 := if_pos hsmall
      rcases Bool.eq_false_or_eq_true (R.accepts (S.items * 2)) with haccepts | haccepts
      · have hwhole := S.tiles_snd_of_eq (by omega) hchunk
        exact iff_of_true (S.writesDag_of_no_rest splitDag (by omega) (by rwa [hchunk]) hwhole.ge)
          ⟨hpos, Or.inr ⟨hsmall, haccepts⟩⟩
      · refine iff_of_false (S.not_writesDag_of_rejected splitDag (Or.inr (by rwa [hchunk]))) ?_
        rintro ⟨-, hdvd | ⟨-, haccepts'⟩⟩
        · rw [R.accepts_of_dvd _ (by omega) hdvd] at haccepts
          exact absurd haccepts (by decide)
        · rw [haccepts'] at haccepts
          exact absurd haccepts (by decide)
    · have hchunk : S.chunk = S.groupSize * S.blockMultiple := if_neg (by omega)
      have hmul : S.groupSize ∣ S.chunk := hchunk ▸ Nat.dvd_mul_right _ _
      rw [S.writesDag_iff_of_groups R splitDag (by omega) hmul]
      constructor
      · intro hdvd
        exact ⟨hpos, Or.inl hdvd⟩
      · rintro ⟨-, hdvd | ⟨hlt, -⟩⟩
        · exact hdvd
        · omega

/-- 33 items in groups of 64: the launches are for the nodes from 0 and from 64 on, with 64 work-items
each, and the second one stores to the nodes 66 to 127 as well. -/
theorem dag_overruns :
    ∃ S : DagSettings, S.items = 33 ∧ S.groupSize = 64 ∧ S.blockMultiple = 1 ∧
      S.launches (fun n => n % 64 == 0) 2 = some [(0, 64), (64, 64)] ∧
      (∀ splitDag, ¬ InBuffers splitDag S.items (itemNode 64 2)) ∧
      ∀ (R : Runtime S.groupSize) (splitDag : Bool), ¬ S.WritesDag R.accepts splitDag := by
  refine ⟨⟨33, 64, 1, by decide, by decide, by decide, by decide⟩, rfl, rfl, rfl, rfl, fun splitDag => ?_,
    fun R splitDag => ?_⟩
  · rw [inBuffers_iff]
    decide
  · rw [writesDag_iff_of_groups _ R splitDag (by decide) (by decide)]
    decide

/-- **While nothing wraps and nothing is rejected** the launches are those of `launchLoop`. -/
theorem dagLoop_eq_launchLoop (R : Runtime S.groupSize) (hpos : 0 < S.chunk) (hmul : S.groupSize ∣ S.chunk) (fuel : ℕ) :
    ∀ (steps : ℕ) (start : BitVec 32) (launches : List (BitVec 32 × ℕ)), S.items * 2 < steps + start.toNat →
      S.chunk ≤ start.toNat ∨ start = 0 → S.groupSize ∣ start.toNat →
      dagLoop R.accepts S.workWord (BitVec.ofNat 32 S.chunk) (BitVec.ofNat 32 S.groupSize) fuel start = some launches →
      launches.map (fun L => (L.1.toNat, L.2)) = launchLoop (S.items * 2) S.chunk S.groupSize steps start.toNat := by
  have hgroup := S.groupSize_cases
  have hnodes := S.nodes_lt
  have hle := S.chunk_le
  have hwork := S.toNat_work
  have hchunk := S.toNat_chunk
  have haccepts := R.accepts_of_dvd S.chunk hpos hmul
  have hlimit : (S.workWord - BitVec.ofNat 32 S.chunk).toNat = S.items * 2 - S.chunk := by
    rw [BitVec.toNat_sub_of_le (BitVec.le_def.2 (by omega)), hwork, hchunk]
  induction fuel with
  | zero =>
    intro steps start launches _ _ _ h
    exact absurd h (by simp [dagLoop])
  | succ fuel ih =>
    intro steps start launches hsteps hstart hdvd h
    unfold dagLoop at h
    simp only [BitVec.le_def, hlimit, BitVec.lt_def, hwork, hchunk] at h
    by_cases hwhole : start.toNat ≤ S.items * 2 - S.chunk
    · rw [if_pos hwhole, if_pos haccepts, Option.map_eq_some_iff] at h
      obtain ⟨rest, hrest, rfl⟩ := h
      obtain ⟨steps, rfl⟩ : ∃ m, steps = m + 1 := ⟨steps - 1, by omega⟩
      have hnext : (start + BitVec.ofNat 32 S.chunk).toNat = start.toNat + S.chunk := by
        rw [BitVec.toNat_add, hchunk]
        omega
      rw [launchLoop, if_pos hwhole, ← hnext,
        ← ih steps _ rest (by omega) (Or.inl (by omega)) (hnext ▸ Nat.dvd_add hdvd hmul) hrest]
      rfl
    · rw [if_neg hwhole] at h
      by_cases hrest : start.toNat < S.items * 2
      · obtain ⟨steps, rfl⟩ : ∃ m, steps = m + 1 := ⟨steps - 1, by omega⟩
        have hbehind : S.chunk ≤ start.toNat := by
          rcases hstart with hbehind | rfl
          · exact hbehind
          · simp at hwhole
        have hreach := (restBlocks_range (by omega) S.groupSize_dvd hdvd hrest hnodes).2.1
        rw [if_pos hrest, S.toNat_restSize hdvd hrest (by omega), if_pos (R.accepts_of_dvd _ (by omega) (Nat.dvd_mul_left _ _))] at h
        obtain rfl := Option.some.inj h
        rw [launchLoop, if_neg hwhole, if_pos hrest]
        rfl
      · rw [if_neg hrest] at h
        obtain rfl := Option.some.inj h
        cases steps with
        | zero => rfl
        | succ steps =>
          rw [launchLoop, if_neg hwhole, if_neg hrest]
          rfl

/-- **The launches leave the dataset in the buffers** that the search kernel reads, if a chunk is not larger
than the dataset: the loop ends, and every node of the dataset is right.  The last work-items may
still store behind it. -/
theorem launches_hold_dataset {keccakf : State → State} (kp : Gpu.KeccakProcess keccakf) (cache : LightCache) {B : DagBuild}
    (hB : B.worksize = S.groupSize) (R : Runtime S.groupSize) (hblocks : 0 < S.blockMultiple)
    (hfits : S.groupSize * S.blockMultiple ≤ S.items * 2) (locals : ℕ → ℕ → DagLocal) (mem : DagMemory) :
    ∃ fuel launches, S.launches R.accepts fuel = some launches ∧
      ((runLaunches kp cache B (launches.map fun L => (⟨L.1, L.2 / B.worksize⟩, locals L.1.toNat)) mem).dag
        B.splitDag).Holds S.items (calculateDatasetItem1024 keccakf cache) := by
  have hgroup := S.groupSize_cases
  have hchunk : S.chunk = S.groupSize * S.blockMultiple := if_neg (by omega)
  have hpos : 0 < S.chunk := hchunk ▸ Nat.mul_pos (by omega) hblocks
  have hmul : S.groupSize ∣ S.chunk := hchunk ▸ Nat.dvd_mul_right _ _
  obtain ⟨fuel, hfuel⟩ := (S.launches_of_accepts hpos (R.accepts_of_dvd _ hpos hmul) _).2 rfl
  refine ⟨fuel, _, hfuel, ?_⟩
  generalize S.launchesOf R.accepts S.tiles = launches at hfuel ⊢
  have hloop : launches.map (fun L => (L.1.toNat, L.2)) = initEpochLaunches S.items B.worksize S.blockMultiple := by
    rw [initEpochLaunches, hB]
    exact S.dagLoop_eq_launchLoop R hpos hmul fuel _ 0 launches (Nat.lt_succ_self _) (.inr rfl) (Nat.dvd_zero _)
      (S.launches_eq R.accepts fuel ▸ hfuel)
  have hholds := initEpoch_dag_holds kp cache B S.nodes_lt hblocks (hB ▸ hfits) locals mem
  rw [← hloop, List.map_map] at hholds
  simpa only [Function.comp_def, BitVec.ofNat_toNat, BitVec.setWidth_eq] using hholds

/-- The 33 items of `dag_overruns`, for the identity in the place of the permutation. -/
theorem launches_hold_dataset_overrun :
    let kp : Gpu.KeccakProcess id := ⟨fun s _ => s, fun _ _ _ _ => rfl⟩
    ∃ (S : DagSettings) (B : DagBuild), S.items = 33 ∧ S.groupSize = 64 ∧ S.blockMultiple = 1 ∧ B.worksize = 64 ∧
      ∃ fuel launches, S.launches (fun n => n % 64 == 0) fuel = some launches ∧
        ((runLaunches kp oneItemCache B (launches.map fun L => (⟨L.1, L.2 / B.worksize⟩, fun _ => ⟨fun _ => 0, fun _ => 0⟩))
          fun _ _ => 0).dag B.splitDag).Holds 33 (calculateDatasetItem1024 id oneItemCache) := by
  intro kp
  let S : DagSettings := ⟨33, 64, 1, by decide, by decide, by decide, by decide⟩
  refine ⟨S, ⟨64, by decide, by decide, true⟩, rfl, rfl, rfl, rfl, ?_⟩
  exact S.launches_hold_dataset kp oneItemCache rfl ⟨_, fun n _ h => by simpa using Nat.mod_eq_zero_of_dvd h⟩
    (by decide) (by decide) (fun _ _ => ⟨fun _ => 0, fun _ => 0⟩) _

end DagSettings

end OpenCL
end EtcMiner
