/-
# What a miner shares with the farm

`Miner::setWork`, `Miner::pause`, `Miner::resume` and `Miner::work` in
`libeth/Miner.cpp`.  `setWork` looks at the pause flags and stores the package in
two steps, both under `miner_work_mutex`; `pause` takes another mutex and voids the
package between any two steps.  The worker of the miner reads the package with
`work`, which waits for a `setWork` under way.
-/

import EtcMiner.Eth.WorkPackage

namespace EtcMiner
namespace Eth

open Common

/-- `MinerPauseEnum`. -/
inductive MinerPause where
  | overHeating
  | apiRequest
  | farmPaused
  | insufficientMemory
  | initEpochError
deriving DecidableEq

/-- `SolutionAccountType`.  Times are in nanoseconds. -/
structure SolutionAccount where
  accepted : ℕ := 0
  rejected : ℕ := 0
  wasted : ℕ := 0
  failed : ℕ := 0
  collectAcceptd : ℕ := 0
  tstamp : ℤ

/-- `HwSensorsType`. -/
structure HwSensors where
  tempC : ℤ := 0
  memtempC : ℤ := 0
  fanP : ℤ := 0
  powerW : ℚ := 0

/-- The fields of `Miner` other threads write.  `setting` is the `setWork` under
way: its package, and whether it saw the miner paused. -/
structure Miner where
  work : WorkPackage := {}
  pauseFlags : MinerPause → Bool := fun _ => false
  setting : Option (WorkPackage × Bool) := none

/-- `Miner::paused`. -/
def Miner.paused (m : Miner) : Bool :=
  m.pauseFlags .overHeating || m.pauseFlags .apiRequest || m.pauseFlags .farmPaused ||
    m.pauseFlags .insufficientMemory || m.pauseFlags .initEpochError

/-- The package with its header cleared. -/
def WorkPackage.voided (w : WorkPackage) : WorkPackage := { w with header := fun _ => 0 }

/-- The calls of other threads, step by step. -/
inductive MinerCall where
  | setWorkBegin (w : WorkPackage)
  | setWorkEnd
  | pause (what : MinerPause)
  | resume (what : MinerPause)

/-- One step of another thread.  A second `setWork` waits for the first one. -/
def Miner.call (m : Miner) : MinerCall → Miner
  | .setWorkBegin w =>
    match m.setting with
    | none => { m with setting := some (w, m.paused) }
    | some _ => m
  | .setWorkEnd =>
    match m.setting with
    | none => m
    | some (w, paused) => { m with work := if paused then m.work.voided else w, setting := none }
  | .pause what =>
    { m with
      pauseFlags := fun p => if p = what then true else m.pauseFlags p
      work := m.work.voided }
  | .resume what => { m with pauseFlags := fun p => if p = what then false else m.pauseFlags p }

/-- `Miner::work`, `none` while it waits for the mutex. -/
def Miner.readWork (m : Miner) : Option WorkPackage :=
  match m.setting with
  | none => some m.work
  | some _ => none

theorem Miner.work_eq_of_readWork {m : Miner} {w : WorkPackage} (h : m.readWork = some w) :
    m.work = w := by
  unfold Miner.readWork at h
  split at h
  · exact Option.some.inj h
  · cases h

end Eth
end EtcMiner
