/-
# The work loop of the OpenCL miner

`CLMiner::workLoop` in `libcl/CLMiner.cpp`.  The worker reads the package of the miner
once per iteration and a second time after `initEpoch`, which lasts seconds; other
threads set and void the package between any two of its steps.  The DAG, the header
buffer and the target argument on the device are refreshed only when the header
differs from that of the package launched last, and the DAG only when the epoch
differs too.

So a launch may not match its package: the package read after `initEpoch` may be
void or of another epoch, and a package with the header of the last one but another
boundary or epoch is launched as the last one was.  These are the only ways
(`launches_match_iff`).

A `cl::Error` in the loop ends it like a stop request, so `stop` stands for both.
-/

import EtcMiner.Eth.Miner
import EtcMiner.Lib.Run

namespace EtcMiner
namespace CLMiner

open Common Eth Lib

/-- `c_maxSearchResults`. -/
def maxSearchResults : ℕ := 4

/-- What `initEpoch` and `workLoop` leave on the device: the epoch of the DAG, the
header buffer and the target argument of the search kernel. -/
structure Device where
  dagEpoch : ℤ
  header : H256
  target : BitVec 64

/-- Where the worker is.  In `initializing` it runs `initEpoch` for the epoch of `w`,
having read `gids` from the search before; `crashed` is the use of a null
`m_queue`. -/
inductive Phase where
  | stopped
  | running
  | initializing (w : WorkPackage) (gids : List (BitVec 32))
  | crashed

/-- The miner and its worker. -/
structure State where
  miner : Miner := {}
  phase : Phase := .stopped
  device : Option Device := none
  current : WorkPackage := {}
  startNonce : BitVec 64 := 0
  blockMultiple : BitVec 32 := 200000

/-- One call of `enqueueNDRangeKernel` for the search: the package it is for, what the
device holds, and the arguments of the kernel. -/
structure Launch where
  package : WorkPackage
  device : Device
  startNonce : BitVec 64
  batchBlocks : BitVec 32

/-- What a step shows: a launch, and the solutions passed to `Farm::submitProof`. -/
structure Output where
  launch : Option Launch := none
  submitted : List Solution := []

/-- The steps of the worker and of the other threads.  `gids` are the results read from
the device; `multiple` is a new `m_block_multiple`, if the hash rate gives one. -/
inductive Event where
  | call (c : MinerCall)
  | start
  | stop
  | iterate (gids : List (BitVec 32)) (multiple : Option (BitVec 32))
  | initEpochDone (multiple : Option (BitVec 32))
  | initEpochFailed (what : MinerPause)

section Loop

variable (clGroupSize : BitVec 32) (index : ℕ)

/-- The rest of an iteration from "Run the kernel" on. -/
def launch (s : State) (w : WorkPackage) (d : Device) (gids : List (BitVec 32))
    (multiple : Option (BitVec 32)) : State × Output :=
  let blockMultiple := multiple.getD s.blockMultiple
  let batchBlocks := clGroupSize * blockMultiple
  ({ s with
      phase := .running
      device := some d
      current := { w with startNonce := s.startNonce }
      startNonce := s.startNonce + batchBlocks.setWidth 64
      blockMultiple := blockMultiple },
    { launch := some ⟨w, d, s.startNonce, batchBlocks⟩
      submitted := (gids.take maxSearchResults).map fun gid =>
        ⟨s.current.startNonce + gid.setWidth 64, fun _ => 0, s.current, index⟩ })

/-- The branch of a new header: the start nonce, the header buffer and the target are
those of `w`. -/
def switchTo (s : State) (w : WorkPackage) (dagEpoch : ℤ) (gids : List (BitVec 32))
    (multiple : Option (BitVec 32)) : State × Output :=
  launch clGroupSize index { s with startNonce := w.startNonce } w
    ⟨dagEpoch, w.header, upper64OfH256 w.boundary⟩ gids multiple

/-- An iteration up to `initEpoch` or to its end. -/
def iterate (s : State) (w : WorkPackage) (gids : List (BitVec 32)) (multiple : Option (BitVec 32)) :
    State × Output :=
  if w.IsVoid then (s, {})
  else if s.current.header ≠ w.header then
    if s.current.epoch ≠ w.epoch then ({ s with phase := .initializing w gids, device := none }, {})
    else match s.device with
      | none => ({ s with phase := .crashed }, {})
      | some d => switchTo clGroupSize index s w d.dagEpoch gids multiple
  else match s.device with
    | none => ({ s with phase := .crashed }, {})
    | some d => launch clGroupSize index s w d gids multiple

/-- One step.  An event that does not fit the phase, or a read that waits for
`setWork`, changes nothing. -/
def step (s : State) : Event → State × Output
  | .call c => ({ s with miner := s.miner.call c }, {})
  | .start =>
    match s.phase with
    | .stopped => ({ s with phase := .running, current := {}, startNonce := 0 }, {})
    | _ => (s, {})
  | .stop =>
    match s.phase with
    | .crashed => (s, {})
    | _ => ({ s with phase := .stopped, device := none }, {})
  | .iterate gids multiple =>
    match s.phase, s.miner.readWork with
    | .running, some w => iterate clGroupSize index s w gids multiple
    | _, _ => (s, {})
  | .initEpochDone multiple =>
    match s.phase, s.miner.readWork with
    | .initializing w₀ gids, some w => switchTo clGroupSize index s w w₀.epoch gids multiple
    | _, _ => (s, {})
  | .initEpochFailed what =>
    match s.phase with
    | .initializing _ _ =>
      ({ s with phase := .stopped, device := none, miner := s.miner.call (.pause what) }, {})
    | _ => (s, {})

/-- The state after one step. -/
def next (s : State) (e : Event) : State := (step clGroupSize index s e).1

end Loop

/-- A launch that matches its package: the package is not void, the DAG is that of its
epoch, the header buffer holds its header and the target argument is the top of its
boundary. -/
def Launch.Matches (l : Launch) : Prop :=
  ¬ l.package.IsVoid ∧ l.device.dagEpoch = l.package.epoch ∧ l.device.header = l.package.header ∧
    l.device.target = upper64OfH256 l.package.boundary

instance (l : Launch) : Decidable l.Matches := inferInstanceAs (Decidable (_ ∧ _ ∧ _ ∧ _))

/-- What one step must meet.  An iteration that reads a package with the header of
the last one must read the epoch and the top of the boundary of the last one too,
and the package read after `initEpoch` must be one of the epoch initialised. -/
def Fits (s : State) : Event → Prop
  | .iterate _ _ =>
    match s.phase, s.miner.readWork with
    | .running, some w => ¬ w.IsVoid → s.current.header = w.header →
      s.current.epoch = w.epoch ∧ upper64OfH256 s.current.boundary = upper64OfH256 w.boundary
    | _, _ => True
  | .initEpochDone _ =>
    match s.phase, s.miner.readWork with
    | .initializing w₀ _, some w => ¬ w.IsVoid ∧ w₀.epoch = w.epoch
    | _, _ => True
  | _ => True

/-- Between the iterations the device is loaded with the package launched last, or
neither is there. -/
def Inv (s : State) : Prop :=
  match s.phase with
  | .stopped => s.device = none
  | .running =>
    match s.device with
    | none => s.current.IsVoid
    | some d => ¬ s.current.IsVoid ∧ d.dagEpoch = s.current.epoch ∧ d.header = s.current.header ∧
      d.target = upper64OfH256 s.current.boundary
  | _ => True

section Loop

variable (clGroupSize : BitVec 32) (index : ℕ)

/-- The launch of a step, if there is one, matches. -/
def Output.Good (o : Output) : Prop := ∀ l, o.launch = some l → l.Matches

instance : ∀ o : Output, Decidable o.Good
  | ⟨none, _⟩ => isTrue fun _ h => nomatch h
  | ⟨some l, _⟩ => decidable_of_iff l.Matches ⟨fun h _ hl => Option.some.inj hl ▸ h, fun h => h l rfl⟩

theorem good_of_launch_eq_none {o : Output} (h : o.launch = none) : o.Good := by
  intro l hl
  rw [h] at hl
  exact absurd hl (by simp)

/-- A launch for `w` on the device `d` is good when `d` is loaded with `w`. -/
theorem launch_good_iff (s : State) (w : WorkPackage) (d : Device) (gids : List (BitVec 32))
    (multiple : Option (BitVec 32)) :
    (launch clGroupSize index s w d gids multiple).2.Good ↔
      ¬ w.IsVoid ∧ d.dagEpoch = w.epoch ∧ d.header = w.header ∧ d.target = upper64OfH256 w.boundary :=
  ⟨fun h => h _ rfl, fun h _ hl => Option.some.inj hl ▸ h⟩

/-- A good launch leaves the device loaded with the package launched. -/
theorem launch_inv {s : State} {w : WorkPackage} {d : Device} {gids : List (BitVec 32)}
    {multiple : Option (BitVec 32)} (h : (launch clGroupSize index s w d gids multiple).2.Good) :
    Inv (launch clGroupSize index s w d gids multiple).1 :=
  (launch_good_iff clGroupSize index s w d gids multiple).1 h

/-- After the branch of a new header everything but the DAG is that of `w`. -/
theorem switchTo_good_iff (s : State) (w : WorkPackage) (dagEpoch : ℤ) (gids : List (BitVec 32))
    (multiple : Option (BitVec 32)) :
    (switchTo clGroupSize index s w dagEpoch gids multiple).2.Good ↔
      ¬ w.IsVoid ∧ dagEpoch = w.epoch := by
  rw [switchTo, launch_good_iff]
  simp

/-- **An iteration is good exactly when it fits**, and then the state stays good. -/
theorem iterate_spec {s : State} (hphase : s.phase = .running) (hinv : Inv s) (w : WorkPackage)
    (gids : List (BitVec 32)) (multiple : Option (BitVec 32)) :
    ((iterate clGroupSize index s w gids multiple).2.Good ↔
      (¬ w.IsVoid → s.current.header = w.header → s.current.epoch = w.epoch ∧
        upper64OfH256 s.current.boundary = upper64OfH256 w.boundary)) ∧
    ((iterate clGroupSize index s w gids multiple).2.Good →
      Inv (iterate clGroupSize index s w gids multiple).1) := by
  have hloaded := hinv
  unfold Inv at hloaded
  rw [hphase] at hloaded
  unfold iterate
  by_cases hvoid : w.IsVoid
  · rw [if_pos hvoid]
    exact ⟨iff_of_true (good_of_launch_eq_none rfl) fun h => absurd hvoid h, fun _ => hinv⟩
  rw [if_neg hvoid]
  by_cases hheader : s.current.header = w.header
  · rw [if_neg (not_not.2 hheader)]
    cases hdevice : s.device with
    | none =>
      -- nothing has been launched, so the header of `current` is void
      rw [hdevice] at hloaded
      exact absurd (hheader.symm.trans hloaded) hvoid
    | some d =>
      rw [hdevice] at hloaded
      obtain ⟨-, hepoch, hhdr, htarget⟩ := hloaded
      refine ⟨?_, launch_inv clGroupSize index⟩
      rw [launch_good_iff, hepoch, hhdr, htarget]
      exact ⟨fun h _ _ => ⟨h.2.1, h.2.2.2⟩, fun h => ⟨hvoid, (h hvoid hheader).1, hheader, (h hvoid hheader).2⟩⟩
  · rw [if_pos hheader]
    have hfits : ¬ w.IsVoid → s.current.header = w.header → s.current.epoch = w.epoch ∧
        upper64OfH256 s.current.boundary = upper64OfH256 w.boundary := fun _ h => absurd h hheader
    by_cases hepoch : s.current.epoch = w.epoch
    · rw [if_neg (not_not.2 hepoch)]
      cases hdevice : s.device with
      | none => exact ⟨iff_of_true (good_of_launch_eq_none rfl) hfits, fun _ => trivial⟩
      | some d =>
        rw [hdevice] at hloaded
        have hgood := (switchTo_good_iff clGroupSize index s w d.dagEpoch gids multiple).2
          ⟨hvoid, hloaded.2.1.trans hepoch⟩
        exact ⟨iff_of_true hgood hfits, launch_inv clGroupSize index⟩
    · rw [if_pos hepoch]
      exact ⟨iff_of_true (good_of_launch_eq_none rfl) hfits, fun _ => trivial⟩

/-- **A step is good exactly when it fits**, and a good step keeps the invariant. -/
theorem step_spec {s : State} (hinv : Inv s) (e : Event) :
    ((step clGroupSize index s e).2.Good ↔ Fits s e) ∧
      ((step clGroupSize index s e).2.Good → Inv (next clGroupSize index s e)) := by
  -- a step without launch fits, and is good
  have hquiet : ∀ {s' : State} {p : Prop}, p → Inv s' →
      ((⟨none, []⟩ : Output).Good ↔ p) ∧ ((⟨none, []⟩ : Output).Good → Inv s') := fun hp hs' =>
    ⟨iff_of_true (good_of_launch_eq_none rfl) hp, fun _ => hs'⟩
  unfold next
  cases e with
  | call c => exact hquiet trivial hinv
  | start =>
    unfold step
    cases hphase : s.phase with
    | stopped =>
      refine hquiet trivial ?_
      unfold Inv at hinv
      rw [hphase] at hinv
      unfold Inv
      rw [hinv]
      rfl
    | _ => exact hquiet trivial hinv
  | stop =>
    unfold step
    cases hphase : s.phase with
    | crashed => exact hquiet trivial hinv
    | _ => exact hquiet trivial rfl
  | iterate gids multiple =>
    unfold step Fits
    cases hphase : s.phase with
    | running =>
      cases hread : s.miner.readWork with
      | none => exact hquiet trivial hinv
      | some w => exact iterate_spec clGroupSize index hphase hinv w gids multiple
    | _ => exact hquiet trivial hinv
  | initEpochDone multiple =>
    unfold step Fits
    cases hphase : s.phase with
    | initializing w₀ gids =>
      cases hread : s.miner.readWork with
      | none => exact hquiet trivial hinv
      | some w =>
        exact ⟨switchTo_good_iff clGroupSize index s w w₀.epoch gids multiple, launch_inv clGroupSize index⟩
    | _ => exact hquiet trivial hinv
  | initEpochFailed what =>
    unfold step
    cases hphase : s.phase with
    | initializing w₀ gids => exact hquiet trivial rfl
    | _ => exact hquiet trivial hinv

/-- **When every launch matches its package.**  In a run of the miner, from its
construction on and under any interleaving of the calls of other threads, all
launches match exactly when all steps fit. -/
theorem launches_match_iff (es : List Event) :
    Along (next clGroupSize index) (fun s e => (step clGroupSize index s e).2.Good) {} es ↔
      Along (next clGroupSize index) Fits {} es :=
  along_iff_along (show Inv {} from rfl) (fun _ e hinv => (step_spec clGroupSize index hinv e).1)
    (fun _ e hinv => (step_spec clGroupSize index hinv e).2) es

end Loop

/-- A package of epoch `7`. -/
def packageA : WorkPackage := { header := fun _ => 1, boundary := fun _ => 255, epoch := 7 }

/-- The same header with a harder boundary. -/
def packageB : WorkPackage := { packageA with boundary := fun _ => 0 }

/-- The farm sets `packageA`, the worker initialises the epoch and launches; then the
farm sets `packageB` and the worker iterates. -/
def boundaryRun : List Event :=
  [.start, .call (.setWorkBegin packageA), .call .setWorkEnd, .iterate [] none, .initEpochDone none,
    .call (.setWorkBegin packageB), .call .setWorkEnd, .iterate [] none]

/-- The farm pauses the miner while `initEpoch` runs. -/
def pauseRun : List Event :=
  [.start, .call (.setWorkBegin packageA), .call .setWorkEnd, .iterate [] none,
    .call (.pause .farmPaused), .initEpochDone none]

/-- Both runs launch a search that does not match: one with the target of the package
before, one for a void package. -/
theorem launches_mismatch :
    ¬ Along (next 64 0) (fun s e => (step 64 0 s e).2.Good) {} boundaryRun ∧
      ¬ Along (next 64 0) (fun s e => (step 64 0 s e).2.Good) {} pauseRun := by
  decide +kernel

end CLMiner
end EtcMiner
