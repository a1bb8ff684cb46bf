/-
# The results of a CUDA launch

`ethash_search` in `libcuda/ethash_cuda_miner_kernel.cu`, as one of the launches of
`EtcMiner.Gpu.Outputs`.  A thread with a solution draws from `solCount`, returns if the number is
`MAX_SEARCH_RESULTS` or more, writes its global id and then sets `done`.  The threads of a warp test
`done` together; `kick_miner` sets it from the host.

As for OpenCL, no result is lost, repeated or wrong whatever the order of the steps
(`search_results`).  The hash count is that of the blocks whose first warp has run, though other warps
of a block may have found `done` set.
-/

import EtcMiner.Cuda.ComputeHash
import EtcMiner.Cuda.CUDAMiner
import EtcMiner.Gpu.Outputs

namespace EtcMiner
namespace Cuda

open Lib Ethash Gpu
open CUDAMiner (maxSearchResults)

/-- The rest of `ethash_search` for a solution: `atomicInc` of `solCount`, the test of the number, the
write, and `done = 1`. -/
def outputCode : OutputCode maxSearchResults where
  raise _ := 1
  place t := if h : t < maxSearchResults then some ⟨t, h⟩ else none
  branch := [.draw, .write, .raise]

theorem outputCode_place (t : ℕ) (ht : t < maxSearchResults) : outputCode.place t = some ⟨t, ht⟩ := dif_pos ht

/-- One call of `run_ethash_search`: the constants of the device and the arguments.  The threads of a
block are whole groups of eight. -/
structure Launch where
  constants : Constants
  startNonce : BitVec 64
  gridSize : ℕ
  blockSize : ℕ
  blockSize_pos : 0 < blockSize
  eight_dvd : 8 ∣ blockSize
  fits : gridSize * blockSize < 2 ^ 32

section Launch

variable {keccakf : State → State} (kp : KeccakProcess keccakf) (L : Launch)

/-- `gid`. -/
def gid (block thread : ℕ) : BitVec 32 :=
  BitVec.ofNat 32 block * BitVec.ofNat 32 L.blockSize + BitVec.ofNat 32 thread

/-- The nonces of the eight threads that hash together with `thread`. -/
def groupNonces (block thread : ℕ) (t : Fin 8) : BitVec 64 :=
  L.startNonce + (gid L block (8 * (thread / 8) + t)).setWidth 64

/-- The thread does not return after `compute_hash`. -/
def isSolution (i : ℕ × ℕ) : Bool :=
  !computeHash kp L.constants (groupNonces L i.1 i.2) (Fin.ofNat 8 i.2)

/-- The threads of the launch by block and index.  A warp is a team. -/
def grid : Grid (ℕ × ℕ) (ℕ × ℕ) := rectangle L.gridSize L.blockSize fun i => (i.1, i.2 / 32)

/-- The launch on the buffer that the host has cleared. -/
def searched (gid : Fin maxSearchResults → BitVec 32) (es : List (LaunchEvent (ℕ × ℕ) (ℕ × ℕ))) :
    SearchRun (ℕ × ℕ) (ℕ × ℕ) maxSearchResults :=
  run (SearchRun.next outputCode (grid L) (isSolution kp L)) { gid := gid } es

variable {L}

theorem gid_eq (block thread : ℕ) : gid L block thread = BitVec.ofNat 32 (block * L.blockSize + thread) := by
  rw [gid, ← BitVec.ofNat_mul, ← BitVec.ofNat_add]

/-- A thread hashes its own nonce. -/
theorem groupNonces_self {i : ℕ × ℕ} (hi : i ∈ (grid L).items) :
    groupNonces L i.1 i.2 (Fin.ofNat 8 i.2) = L.startNonce + BitVec.ofNat 64 (i.1 * L.blockSize + i.2) := by
  have hthread : 8 * (i.2 / 8) + (Fin.ofNat 8 i.2).val = i.2 := Nat.div_add_mod i.2 8
  have hlt := (index_lt hi).trans L.fits
  rw [groupNonces, hthread, gid_eq]
  congr 1
  apply BitVec.eq_of_toNat_eq
  simp only [BitVec.toNat_setWidth, BitVec.toNat_ofNat]
  omega

theorem isSolution_iff {i : ℕ × ℕ} (hi : i ∈ (grid L).items) :
    isSolution kp L i = true ↔ Solves keccakf L.constants.header L.constants.dagSize L.constants.dag L.constants.target
      (L.startNonce + BitVec.ofNat 64 (i.1 * L.blockSize + i.2)) := by
  have hagrees := (computeHash_agrees kp L.constants (groupNonces L i.1 i.2) (Fin.ofNat 8 i.2)).2
  rw [groupNonces_self hi] at hagrees
  rw [isSolution, Bool.not_eq_true', hagrees]
  rfl

variable (L)

/-- **The results of a launch.**  The host finds no global id twice, every one it finds is that of a
solution, and it finds one if the launch has a solution, unless it has kicked the kernel.  The hash count is
the number of blocks whose first warp has run. -/
theorem search_results (gid : Fin maxSearchResults → BitVec 32) (es : List (LaunchEvent (ℕ × ℕ) (ℕ × ℕ)))
    (hfinished : (searched kp L gid es).Finished (grid L)) :
    let found := (searched kp L gid es).found
    let solves := Solves keccakf L.constants.header L.constants.dagSize L.constants.dag L.constants.target
    found.Nodup ∧ (∀ id ∈ found, solves (L.startNonce + id.setWidth 64)) ∧
      (.kick ∉ es → (found = [] ↔ ∀ m < L.gridSize * L.blockSize, ¬ solves (L.startNonce + BitVec.ofNat 64 m))) ∧
      (searched kp L gid es).hashCount.toNat =
        ((Finset.range L.gridSize).filter fun block => (searched kp L gid es).runs (block, 0) = some true).card := by
  intro found solves
  obtain ⟨hnodup, hsolve, hnone⟩ := rectangle_results (d := searched kp L gid es)
    (P := fun m => solves (L.startNonce + BitVec.ofNat 64 m)) rfl outputCode_place (by decide) L.fits
    (fun i hi => isSolution_iff kp hi) rfl hfinished
  have hcount := rectangle_hashCount (d := searched kp L gid es) L.blockSize_pos L.fits rfl hfinished
  refine ⟨hnodup, fun id hid => ?_, hnone, by simpa using hcount⟩
  have hid' := (hsolve id hid).2
  rwa [BitVec.ofNat_toNat] at hid'

end Launch

/-- A block of eight threads with a target that every nonce meets. -/
def openLaunch : Launch where
  constants := ⟨fun _ => 0, BitVec.allOnes 64, 2, fun _ _ => 0⟩
  startNonce := 0
  gridSize := 1
  blockSize := 8
  blockSize_pos := by decide
  eight_dvd := by decide
  fits := by decide

/-- The threads go on in turn: eight of them draw, and four find a slot. -/
def openEvents : List (LaunchEvent (ℕ × ℕ) (ℕ × ℕ)) :=
  .start (0, 0) :: (List.replicate 5 ((List.range 8).map fun thread => .item (0, thread))).flatten

theorem search_results_openLaunch :
    let kp : KeccakProcess id := ⟨fun s _ => s, fun _ _ _ _ => rfl⟩
    (searched kp openLaunch (fun _ => 0) openEvents).found.Nodup := by
  intro kp
  have hall : isSolution kp openLaunch = fun _ => true := by
    funext i
    have hle (x : BitVec 64) : ¬ x > BitVec.allOnes 64 :=
      BitVec.not_lt.2 (BitVec.le_def.2 (Nat.le_sub_one_of_lt x.isLt))
    simp only [isSolution, computeHash, Bool.not_eq_true', decide_eq_false_iff_not]
    exact hle _
  have hfinished : (searched kp openLaunch (fun _ => 0) openEvents).Finished (grid openLaunch) := by
    simp only [searched, hall, SearchRun.Finished]
    decide +kernel
  exact (search_results kp openLaunch (fun _ => 0) openEvents hfinished).1

end Cuda
end EtcMiner
