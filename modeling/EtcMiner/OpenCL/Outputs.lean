/-
# The results of an OpenCL launch

The end of `search` in `libcl/ethash.cl`, as one of the launches of `EtcMiner.Gpu.Outputs`.  A
work-item with a solution raises `abort`, draws from `count` and writes its global id, to the last
slot for all numbers from `MAX_OUTPUTS - 1` on.  The items of a work-group find the same `abort`, as
the barriers of the kernel require of them; `kick_miner` raises it from the host.

Whatever the order of the steps, the host reads no global id twice, every one it reads is that of a
nonce which solves by the CPU code, and it reads one if any nonce of the launch solves, unless the
launch was kicked (`launch_results`).
-/

import EtcMiner.Gpu.Outputs
import EtcMiner.OpenCL.Attribution
import EtcMiner.OpenCL.Search
import Mathlib.Data.Finset.Prod

namespace EtcMiner
namespace OpenCL

open Lib Ethash Gpu
open CLMiner (SearchResults maxSearchResults)

theorem min_lt_maxSearchResults (n : ℕ) : min (maxSearchResults - 1) n < maxSearchResults :=
  (Nat.min_le_left _ n).trans_lt (by decide)

/-- `min(MAX_OUTPUTS - 1u, n)`. -/
def slotOf (n : ℕ) : Fin maxSearchResults := ⟨min (maxSearchResults - 1) n, min_lt_maxSearchResults n⟩

/-- The branch of a solution: `atomic_inc(&g_output->abort)`, the slot, and the write to it. -/
def outputCode : OutputCode maxSearchResults where
  raise abort := abort + 1
  place t := some (slotOf t)
  branch := [.raise, .draw, .write]

/-- The results as the host reads them. -/
def searchResults {ι γ : Type*} (d : SearchRun ι γ maxSearchResults) : SearchResults := ⟨d.count, d.gid⟩

/-- A number below `MAX_OUTPUTS` is its own slot. -/
theorem outputCode_place (t : ℕ) (ht : t < maxSearchResults) : outputCode.place t = some ⟨t, ht⟩ :=
  congrArg some (Fin.ext (Nat.min_eq_right (Nat.le_sub_one_of_lt ht)))

section Launch

variable {keccakf : State → State} (kp : KeccakProcess keccakf)
variable {dataset : ℕ → Hash 32} (L : Launch dataset)

/-- The work-items of the launch by work-group and local id.  A group is a team. -/
def grid : Grid (ℕ × ℕ) ℕ := rectangle L.groups L.worksize Prod.fst

/-- The launch on the buffer that the host has cleared, with the local memory of the groups. -/
def searched (mem : ℕ → Group) (gid : Fin maxSearchResults → BitVec 32) (es : List (LaunchEvent (ℕ × ℕ) ℕ)) :
    SearchRun (ℕ × ℕ) ℕ maxSearchResults :=
  run (SearchRun.next outputCode (grid L) fun i => isSolution kp L i.1 (mem i.1) i.2) { gid := gid } es

/-- **The results of a launch.**  The host finds no global id twice, every one it finds is that of a
solution, and it finds one if the launch has a solution, unless it has kicked the kernel.  The hash count is
the number of work-groups that have run. -/
theorem launch_results (hglobal : L.groups * L.worksize < 2 ^ 32) (mem : ℕ → Group)
    (gid : Fin maxSearchResults → BitVec 32) (es : List (LaunchEvent (ℕ × ℕ) ℕ))
    (hfinished : (searched kp L mem gid es).Finished (grid L)) :
    let found := (searchResults (searched kp L mem gid es)).found
    let solves := Solves keccakf L.header L.dagSize dataset L.target
    found.Nodup ∧ (∀ id ∈ found, solves (L.startNonce + id.setWidth 64)) ∧
      (.kick ∉ es → (found = [] ↔ ∀ m < L.groups * L.worksize, ¬ solves (L.startNonce + BitVec.ofNat 64 m))) ∧
      (searched kp L mem gid es).hashCount.toNat =
        ((Finset.range L.groups).filter fun group => (searched kp L mem gid es).runs group = some true).card := by
  intro found solves
  have hhit : ∀ i ∈ (grid L).items, isSolution kp L i.1 (mem i.1) i.2 = true ↔
      solves (L.startNonce + BitVec.ofNat 64 (i.1 * L.worksize + i.2)) := by
    intro i hi
    obtain ⟨hgroup, hlocal⟩ := mem_rectangle.1 hi
    exact (search_agrees kp L i.1 hgroup i.2 hlocal (mem i.1)).2
  obtain ⟨hnodup, hsolve, hnone⟩ := rectangle_results (d := searched kp L mem gid es)
    (P := fun m => solves (L.startNonce + BitVec.ofNat 64 m)) rfl outputCode_place (by decide) hglobal hhit rfl hfinished
  refine ⟨hnodup, fun id hid => ?_, hnone, rectangle_hashCount L.worksize_pos hglobal rfl hfinished⟩
  have hid' := (hsolve id hid).2
  rwa [BitVec.ofNat_toNat] at hid'

end Launch

/-- The launch of `exampleLaunch` with a target that every nonce meets. -/
def openLaunch : Launch fun i _ => BitVec.ofNat 32 i := { exampleLaunch with target := BitVec.allOnes 64 }

/-- Two items draw before the first of them writes. -/
def openEvents : List (LaunchEvent (ℕ × ℕ) ℕ) :=
  [.start 0, .item (0, 0), .item (0, 1), .item (0, 0), .item (0, 1), .item (0, 0), .item (0, 1), .item (0, 1), .item (0, 0),
    .item (0, 0), .item (0, 1)] ++ List.replicate 5 (.item (0, 2)) ++ List.replicate 5 (.item (0, 3))

/-- All four items report. -/
theorem launch_results_openLaunch :
    let kp : KeccakProcess id := ⟨fun s _ => s, fun _ _ _ _ => rfl⟩
    let g : Group := ⟨fun _ => ⟨0, 0⟩, fun _ => 0, fun _ _ => ⟨0, 0⟩, fun _ => 0, fun _ _ => 0⟩
    (searchResults (searched kp openLaunch (fun _ => g) (fun _ => 0) openEvents)).found.Nodup := by
  intro kp g
  have hall : (fun i : ℕ × ℕ => isSolution kp openLaunch i.1 g i.2) = fun _ => true := by
    funext i
    have hle (x : BitVec 64) : x ≤ BitVec.allOnes 64 := BitVec.le_def.2 (Nat.le_sub_one_of_lt x.isLt)
    exact decide_eq_true (hle _)
  have hfinished : (searched kp openLaunch (fun _ => g) (fun _ => 0) openEvents).Finished (grid openLaunch) := by
    simp only [searched, hall, SearchRun.Finished]
    decide
  exact (launch_results kp openLaunch (by decide) (fun _ => g) (fun _ => 0) openEvents hfinished).1

end OpenCL
end EtcMiner
