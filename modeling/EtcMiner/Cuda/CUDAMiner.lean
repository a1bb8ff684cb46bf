/-
# The CUDA miner

`CUDAMiner::workLoop`, `search` and `kick_miner` in `libcuda/CUDAMiner.cpp`.  A search
primes every stream with one launch and then goes round the streams: it reads the
results of the launch before and, unless `m_done` is set, launches the next batch.
`start_nonce` advances by one batch for every stream passed, busy or not, and a
result is submitted under `start_nonce - stream_blocks`, where the stream stood one
round before.

Other threads set, void and kick between any two steps; what `initEpoch` resumes is
one of these calls.  A CUDA error ends the loop like a stop request, so `stop` stands
for both.  An error while the streams are primed, such as the use of buffers that no
`initEpoch` has allocated, also leaves `m_doneMutex` locked.

`inFlight` and `launched` are no variables of the code: they record the last launch
on every stream, and all launches of a search.
-/

import EtcMiner.Eth.Miner
import EtcMiner.Lib.Run

namespace EtcMiner
namespace CUDAMiner

open Common Eth Lib

/-- `MAX_SEARCH_RESULTS`. -/
def maxSearchResults : ℕ := 4

/-- `cuStreamSize`, `cuBlockSize` and the index of the miner. -/
structure Config where
  cuStreamSize : ℕ
  stream_mem : cuStreamSize = 1 ∨ cuStreamSize = 2 ∨ cuStreamSize = 4
  cuBlockSize : ℕ
  index : ℕ

/-- A value of `m_block_multiple` with which a round of the streams stays below `2 ^ 32`
nonces. -/
structure Multiple (cfg : Config) where
  value : ℕ
  fits : value * cfg.cuBlockSize * cfg.cuStreamSize < 2 ^ 32

/-- `batch_blocks`. -/
def Multiple.batchBlocks {cfg : Config} (m : Multiple cfg) : BitVec 32 :=
  BitVec.ofNat 32 m.value * BitVec.ofNat 32 cfg.cuBlockSize

/-- `stream_blocks`. -/
def Multiple.streamBlocks {cfg : Config} (m : Multiple cfg) : BitVec 32 :=
  m.batchBlocks * BitVec.ofNat 32 cfg.cuStreamSize

/-- What the device holds: the DAG, and the constants `d_header` and `d_target`. -/
structure Device where
  dagEpoch : ℤ
  header : H256
  target : BitVec 64

/-- One call of `run_ethash_search`. -/
structure Launch where
  package : WorkPackage
  device : Device
  startNonce : BitVec 64
  batchBlocks : BitVec 32

/-- The variables of `search`.  The inner loop is at the stream `streamIdx`, or between
two rounds if that is `cuStreamSize`. -/
structure Search (cfg : Config) where
  package : WorkPackage
  multiple : Multiple cfg
  startNonce : BitVec 64
  streamIdx : ℕ
  streamsBsy : ℕ → Bool
  inFlight : ℕ → Launch
  launched : List Launch

/-- Where the worker is. -/
inductive Phase (cfg : Config) where
  | stopped
  | running
  | initializing (w : WorkPackage)
  | searching (q : Search cfg)

/-- The miner and its worker. -/
structure State (cfg : Config) where
  miner : Miner := {}
  phase : Phase cfg := .stopped
  device : Option Device := none
  last : WorkPackage := {}
  currentTarget : BitVec 64 := 0
  multiple : Multiple cfg
  done : Bool := true
  doneMutexHeld : Bool := false

/-- What a step shows: launches, and the solutions passed to `Farm::submitProof`. -/
structure Output where
  launches : List Launch := []
  submitted : List Solution := []

/-- The steps of the worker and of the other threads.  `iterate` carries the new
`m_block_multiple`, if the hash rate gives one, and the stream at which priming runs
into an error, if it does; `stream` is one pass of the inner loop of `search`, with the
results read from the stream and the value of `shouldStop`. -/
inductive Event (cfg : Config) where
  | call (c : MinerCall)
  | kick
  | start
  | stop
  | iterate (multiple : Option (Multiple cfg)) (failsAt : Option ℕ)
  | initEpochDone
  | initEpochFailed (what : MinerPause)
  | round
  | stream (gids : List (BitVec 32)) (shouldStop : Bool)

variable {cfg : Config}

/-- The nonce `k` batches after the start nonce of `w`. -/
def batchNonce (w : WorkPackage) (m : Multiple cfg) (k : ℕ) : BitVec 64 :=
  w.startNonce + BitVec.ofNat 64 k * m.batchBlocks.setWidth 64

/-- The device after `set_header` and `set_target`. -/
def setConstants (s : State cfg) (w : WorkPackage) (d : Device) : Device :=
  let target := upper64OfH256 w.boundary
  ⟨d.dagEpoch, w.header, if s.currentTarget ≠ target then target else d.target⟩

/-- The launches that prime the first `n` streams. -/
def primeLaunches (w : WorkPackage) (d : Device) (m : Multiple cfg) (n : ℕ) : List Launch :=
  (List.range n).map fun i => ⟨w, d, batchNonce w m i, m.batchBlocks⟩

/-- The variables of `search` when every stream is primed. -/
def primed (w : WorkPackage) (d : Device) (m : Multiple cfg) : Search cfg where
  package := w
  multiple := m
  startNonce := batchNonce w m cfg.cuStreamSize
  streamIdx := cfg.cuStreamSize
  streamsBsy := fun i => decide (i < cfg.cuStreamSize)
  inFlight := fun i => ⟨w, d, batchNonce w m i, m.batchBlocks⟩
  launched := primeLaunches w d m cfg.cuStreamSize

/-- `search` up to its loop. -/
def prime (s : State cfg) (w : WorkPackage) (d : Device) (m : Multiple cfg) (failsAt : Option ℕ) :
    State cfg × Output :=
  let d := setConstants s w d
  let s := { s with last := w, multiple := m, currentTarget := upper64OfH256 w.boundary }
  match failsAt with
  | some n =>
    ({ s with phase := .stopped, device := none, doneMutexHeld := true },
      { launches := primeLaunches w d m (min n cfg.cuStreamSize) })
  | none =>
    ({ s with device := some d, done := false, phase := .searching (primed w d m) },
      { launches := primeLaunches w d m cfg.cuStreamSize })

/-- An iteration of `workLoop` up to `initEpoch` or to the loop of `search`.  It waits
forever for a mutex that was left locked. -/
def iterate (s : State cfg) (w : WorkPackage) (multiple : Option (Multiple cfg))
    (failsAt : Option ℕ) : State cfg × Output :=
  if w.IsVoid then (s, {})
  else if w.epoch ≠ s.last.epoch then
    ({ s with phase := .initializing w, device := none, currentTarget := 0 }, {})
  else if s.doneMutexHeld then (s, {})
  else match s.device with
    | none => ({ s with phase := .stopped, doneMutexHeld := true }, {})
    | some d => prime s w d (multiple.getD s.multiple) failsAt

/-- The header of the inner loop: `streamIdx++, start_nonce += batch_blocks`. -/
def Search.advance (q : Search cfg) : Search cfg :=
  { q with
    streamIdx := q.streamIdx + 1
    startNonce := q.startNonce + q.multiple.batchBlocks.setWidth 64 }

/-- `streams_bsy &= ~stream_mask`. -/
def Search.retire (q : Search cfg) : Search cfg :=
  { q with streamsBsy := fun i => if i = q.streamIdx then false else q.streamsBsy i }

/-- The launch of the next batch on the stream the loop is at. -/
def Search.launch (q : Search cfg) (d : Device) : Launch :=
  ⟨q.package, d, q.startNonce, q.multiple.batchBlocks⟩

/-- The stream runs its next launch. -/
def Search.relaunch (q : Search cfg) (d : Device) : Search cfg :=
  { q with
    inFlight := fun i => if i = q.streamIdx then q.launch d else q.inFlight i
    launched := q.launched ++ [q.launch d] }

/-- One pass of the inner loop of `search`. -/
def streamPass (s : State cfg) (q : Search cfg) (d : Device) (gids : List (BitVec 32))
    (shouldStop : Bool) : State cfg × Output :=
  if q.streamsBsy q.streamIdx then
    let q' := if s.done then q.retire else q.relaunch d
    ({ s with phase := .searching q'.advance, done := s.done || shouldStop },
      { launches := if s.done then [] else [q.launch d]
        submitted := (gids.take maxSearchResults).map fun gid =>
          ⟨q.startNonce - q.multiple.streamBlocks.setWidth 64 + gid.setWidth 64, fun _ => 0,
            q.package, cfg.index⟩ })
  else ({ s with phase := .searching q.advance }, {})

/-- One step.  An event that does not fit the phase, or a read that waits for
`setWork`, changes nothing. -/
def step (s : State cfg) : Event cfg → State cfg × Output
  | .call c => ({ s with miner := s.miner.call c }, {})
  | .kick => (if s.doneMutexHeld then s else { s with done := true }, {})
  | .start =>
    match s.phase with
    | .stopped => ({ s with phase := .running, last := {} }, {})
    | _ => (s, {})
  | .stop => ({ s with phase := .stopped, device := none }, {})
  | .iterate multiple failsAt =>
    match s.phase, s.miner.readWork with
    | .running, some w => iterate s w multiple failsAt
    | _, _ => (s, {})
  | .initEpochDone =>
    match s.phase with
    | .initializing w =>
      ({ s with phase := .running, device := some ⟨w.epoch, fun _ => 0, 0⟩, last := w }, {})
    | _ => (s, {})
  | .initEpochFailed what =>
    match s.phase with
    | .initializing _ => ({ s with phase := .stopped, miner := s.miner.call (.pause what) }, {})
    | _ => (s, {})
  | .round =>
    match s.phase with
    | .searching q =>
      if q.streamIdx < cfg.cuStreamSize then (s, {})
      else if (List.range cfg.cuStreamSize).any q.streamsBsy then
        ({ s with
            phase := .searching { q with streamIdx := 0 }
            done := s.done || s.miner.paused }, {})
      else ({ s with phase := .running }, {})
    | _ => (s, {})
  | .stream gids shouldStop =>
    match s.phase, s.device with
    | .searching q, some d =>
      if q.streamIdx < cfg.cuStreamSize then streamPass s q d gids shouldStop else (s, {})
    | _, _ => (s, {})

/-- The state after one step. -/
def next (s : State cfg) (e : Event cfg) : State cfg := (step s e).1

end CUDAMiner
end EtcMiner
