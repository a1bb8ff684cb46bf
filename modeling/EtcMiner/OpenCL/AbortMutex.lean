/-
# The lock of the abort flag

`m_abortMutex` in `libcl/CLMiner.cpp` and `libcl/CLMiner.h`.  `kick_miner` locks it, writes the
abort flag to the device and unlocks it; `free_buffers` locks it and leaves the unlocking to its
caller.  The worker calls both: `kick_miner` through `pause`, `free_buffers` at the start of
`initEpoch`, on its error paths and at the end of `workLoop`.

From `free_buffers` on `initEpoch` holds the lock until its last line, and all its error paths
call `pause` first, so the worker waits for itself as soon as one OpenCL call fails there.  The
one exception is the buffer of the whole DAG, which may fail and is replaced by two halves.  Nor
is the lock released when writing the abort flag fails.  Everything else is right:
the lock is used correctly exactly when none of these calls fails (`abort_mutex_disciplined_iff`).

An OpenCL call succeeds or throws a `cl::Error`; `outcome` decides which, for every call of a
run.  `trace` records the calls, and `leaked` whether `initEpoch` was ever left with the lock
held.  The rounds of the loop are given by the packages it reads, and the number of launches of
`GenerateDAG`.  A second lock ends the run in `deadlock`.
-/

import EtcMiner.Eth.WorkPackage
import EtcMiner.Lib.Handler

namespace EtcMiner
namespace CLMiner

open Common Eth Lib

/-- The OpenCL calls of `workLoop`, `kick_miner` and `initEpoch`. -/
inductive ClCall where
  | platforms
  | readResults
  | clearResults
  | writeHeader
  | zeroResults
  | setTarget
  | setStartNonce
  | search
  | finish
  | writeAbort
  | context
  | queue
  | abortqueue
  | searchBuffer
  | headerBuffer
  | lightBuffer
  | dagBuffer
  | splitDagBuffer
  | program
  | build
  | buildInfo
  | kernel
  | writeLight
  | searchArg
  | zeroSearchBuffer
  | dagArg
  | generateDag
  | finishDag
deriving DecidableEq

/-- The calls that must not fail: those `initEpoch` makes with the lock held, apart from the
buffer of the whole DAG, and the one `kick_miner` makes. -/
def ClCall.critical : ClCall → Bool
  | .platforms | .readResults | .clearResults | .writeHeader | .zeroResults | .setTarget
  | .setStartNonce | .search | .finish | .dagBuffer => false
  | .writeAbort | .context | .queue | .abortqueue | .searchBuffer | .headerBuffer | .lightBuffer
  | .splitDagBuffer | .program | .build | .buildInfo | .kernel | .writeLight | .searchArg
  | .zeroSearchBuffer | .dagArg | .generateDag | .finishDag => true

/-- `cl::Error` by the codes that are looked at, and `cl::BuildError`. -/
inductive ClError where
  | outOfResources
  | outOfHostMemory
  | buildError
  | other
deriving DecidableEq

/-- How the worker ends without returning: by an exception of OpenCL or of the program, by
following a null `m_queue`, by locking a mutex it holds or unlocking one it does not hold. -/
inductive Stopped where
  | cl (e : ClError)
  | runtimeError
  | nullPointer
  | deadlock
  | notLocked
deriving DecidableEq

/-- The worker: whether it holds `m_abortMutex`, which queues exist, the package launched last. -/
structure Worker where
  held : Bool := false
  queue : Bool := false
  abortqueue : Bool := false
  current : WorkPackage := {}
  leaked : Bool := false
  trace : List (ClCall × Option ClError) := []

abbrev WorkerM := EStateM Stopped Worker

/-- `m_abortMutex.lock()`. -/
def lock : WorkerM Unit := do
  if (← get).held then throw .deadlock
  modify fun s => { s with held := true }

/-- `m_abortMutex.unlock()`. -/
def unlock : WorkerM Unit := do
  if !(← get).held then throw .notLocked
  modify fun s => { s with held := false }

/-- `try x catch (cl::Error) h`. -/
def catchCl {α : Type} (x : WorkerM α) (h : ClError → WorkerM α) : WorkerM α :=
  tryCatch x fun e =>
    match e with
    | .cl err => h err
    | e => throw e

/-- `CLMiner::free_buffers`. -/
def freeBuffers : WorkerM Unit := do
  lock
  modify fun s => { s with queue := false, abortqueue := false }

/-- What the device and the farm give: its memory, what an epoch needs of it, and `clSplit`. -/
structure EpochSettings where
  totalMemory : ℕ
  requiredMemory : ℤ → ℕ
  clSplit : Bool

/-- One round of `workLoop`: the package it reads, the one it reads after `initEpoch`, and the
launches of `GenerateDAG`. -/
structure Round where
  w : WorkPackage
  w' : WorkPackage := w
  launches : ℕ := 1

section Worker

variable (outcome : ℕ → ClCall → Option ClError)

/-- An OpenCL call. -/
def call (c : ClCall) : WorkerM Unit := do
  let s ← get
  let r := outcome s.trace.length c
  modify fun s => { s with trace := s.trace ++ [(c, r)] }
  match r with
  | none => pure ()
  | some e => throw (.cl e)

/-- `CLMiner::kick_miner`. -/
def kickMiner : WorkerM Unit := do
  lock
  if (← get).abortqueue then call outcome .writeAbort
  unlock

/-- `Miner::pause`, as far as it touches the lock. -/
def pause : WorkerM Unit := kickMiner outcome

/-- The error paths of `initEpoch`. -/
def giveUp : WorkerM Bool := do
  pause outcome
  freeBuffers
  return false

variable (cfg : EpochSettings)

/-- The buffer of the whole DAG, unless the user wants it split: whether it is there. -/
def createDag : WorkerM Bool :=
  if cfg.clSplit then pure false
  else catchCl (do call outcome .dagBuffer; pure true) fun _ => pure false

/-- "create buffer for dag".  The result `false` is a `return false` of `initEpoch`. -/
def createBuffers : WorkerM Bool :=
  catchCl
    (do
      call outcome .searchBuffer
      call outcome .headerBuffer
      call outcome .lightBuffer
      if !(← createDag outcome cfg) then
        call outcome .splitDagBuffer
        call outcome .splitDagBuffer
      pure true)
    fun err => if err = .outOfResources ∨ err = .outOfHostMemory then giveUp outcome else throw (.cl err)

/-- "create miner OpenCL program". -/
def buildProgram : WorkerM Bool := do
  call outcome .program
  catchCl (do call outcome .build; pure true) fun err =>
    if err = .buildError then do
      call outcome .buildInfo
      giveUp outcome
    else throw (.cl err)

/-- The kernels and the light cache. -/
def createKernels : WorkerM Bool :=
  catchCl
    (do
      call outcome .kernel
      call outcome .kernel
      call outcome .writeLight
      pure true)
    fun _ => giveUp outcome

/-- `n` calls of one kind. -/
def calls (c : ClCall) : ℕ → WorkerM Unit
  | 0 => pure ()
  | n + 1 => do
    call outcome c
    calls c n

/-- The launches of `GenerateDAG`. -/
def generateDag : ℕ → WorkerM Unit
  | 0 => pure ()
  | n + 1 => do
    call outcome .dagArg
    call outcome .generateDag
    call outcome .finishDag
    generateDag n

/-- The outer `try` block of `initEpoch`. -/
def setUpEpoch (launches : ℕ) : WorkerM Bool := do
  freeBuffers
  call outcome .context
  call outcome .queue
  modify fun s => { s with queue := true }
  call outcome .abortqueue
  modify fun s => { s with abortqueue := true }
  if !(← createBuffers outcome cfg) then return false
  if !(← buildProgram outcome) then return false
  if !(← createKernels outcome) then return false
  calls outcome .searchArg 4
  call outcome .zeroSearchBuffer
  calls outcome .dagArg 4
  generateDag outcome launches
  calls outcome .searchArg 5
  return true

/-- `CLMiner::initEpoch`. -/
def initEpoch (epoch : ℤ) (launches : ℕ) : WorkerM Bool :=
  if cfg.totalMemory < cfg.requiredMemory epoch then do
    pause outcome
    return false
  else do
    if !(← catchCl (setUpEpoch outcome cfg launches) fun _ => giveUp outcome) then return false
    unlock
    return true

/-- `initEpoch`, with a record of whether it leaves with the lock held. -/
def initEpochObserved (epoch : ℤ) (launches : ℕ) : WorkerM Bool := do
  let b ← tryCatch (initEpoch outcome cfg epoch launches) fun e => do
    modify fun s => { s with leaked := s.leaked || s.held }
    throw e
  modify fun s => { s with leaked := s.leaked || s.held }
  return b

/-- `m_queue->`. -/
def useQueue : WorkerM Unit := do
  if !(← get).queue then throw .nullPointer

/-- "Run the kernel", and `current = w`. -/
def runKernel (w : WorkPackage) : WorkerM Unit := do
  call outcome .setStartNonce
  useQueue
  call outcome .search
  modify fun s => { s with current := w }

/-- The branch of a new header. -/
def newHeader (w : WorkPackage) : WorkerM Unit := do
  useQueue
  call outcome .writeHeader
  call outcome .zeroResults
  call outcome .setTarget
  runKernel outcome w

/-- "synchronize and read the results". -/
def readResults : WorkerM Unit := do
  if (← get).queue then
    call outcome .readResults
    call outcome .clearResults

/-- A round with a package; `false` is the `break` of the loop. -/
def mine (r : Round) : WorkerM Bool := do
  let current := (← get).current
  if current.header = r.w.header then
    runKernel outcome r.w
    return true
  if current.epoch = r.w.epoch then
    newHeader outcome r.w
    return true
  if !(← initEpochObserved outcome cfg r.w.epoch r.launches) then return false
  newHeader outcome r.w'
  return true

/-- One round of the loop of `workLoop`. -/
def round (r : Round) : WorkerM Bool := do
  readResults outcome
  if r.w.IsVoid then return true
  mine outcome cfg r

/-- The loop, until it breaks or the worker should stop. -/
def rounds : List Round → WorkerM Unit
  | [] => pure ()
  | r :: rs => do
    if ← round outcome cfg r then rounds rs

/-- `CLMiner::workLoop`; `found` says that `initDevice` finds the device. -/
def workLoop (found : Bool) (rs : List Round) : WorkerM Unit := do
  call outcome .platforms
  if found then
    catchCl
      (do
        rounds outcome cfg rs
        if (← get).queue then call outcome .finish
        freeBuffers
        unlock)
      fun _ => do
        freeBuffers
        unlock
        throw .runtimeError

end Worker

/-- A call that must not fail has failed. -/
def Worker.failed (s : Worker) : Bool := s.trace.any fun p => p.1.critical && p.2.isSome

/-- The lock is free, as it should be, and no critical call has failed. -/
def Worker.Free (s : Worker) : Prop := s.held = false ∧ s.leaked = false ∧ s.failed = false

/-- The worker holds the lock in `initEpoch`, and no critical call has failed. -/
def Worker.Locked (s : Worker) : Prop := s.held = true ∧ s.leaked = false ∧ s.failed = false

/-- A critical call has failed, and the worker waits for itself or is about to. -/
def Doomed (e : Stopped) (s : Worker) : Prop :=
  s.failed = true ∧ (e = .deadlock ∨ (∃ err, e = .cl err) ∧ s.held = true)

/-- The worker ends with the lock free, or is doomed. -/
def Ended (e : Stopped) (s : Worker) : Prop :=
  (s.Free ∧ e ≠ .deadlock ∧ e ≠ .notLocked) ∨ Doomed e s

section Catch

variable {α : Type} {x : WorkerM α} {h : ClError → WorkerM α}

/-- The rule of `catch (cl::Error)`. -/
theorem ends_catchCl {s : Worker} {Q : α → Worker → Prop} {E E' : Stopped → Worker → Prop}
    (hx : Ends x s Q E') (hcl : ∀ err s', E' (.cl err) s' → Ends (h err) s' Q E)
    (hother : ∀ e s', (∀ err, e ≠ .cl err) → E' e s' → E e s') : Ends (catchCl x h) s Q E := by
  rw [catchCl, ends_tryCatch]
  refine hx.imp (fun _ _ hQ => hQ) fun e s' he => ?_
  cases e with
  | cl err => exact hcl err s' he
  | _ => exact hother _ s' (fun err hne => by cases hne) he

end Catch

section Rules

variable {outcome : ℕ → ClCall → Option ClError} {cfg : EpochSettings}

theorem failed_append (s : Worker) (c : ClCall) (r : Option ClError) :
    ({ s with trace := s.trace ++ [(c, r)] } : Worker).failed = (s.failed || (c.critical && r.isSome)) := by
  simp [Worker.failed]

/-- A call either succeeds or throws, and is recorded. -/
theorem ends_call {s : Worker} {c : ClCall} {Q : Unit → Worker → Prop} {E : Stopped → Worker → Prop}
    (hok : ∀ s', s'.held = s.held → s'.leaked = s.leaked → s'.failed = s.failed → Q () s')
    (herr : ∀ err s', s'.held = s.held → s'.leaked = s.leaked → s'.failed = (s.failed || c.critical) →
      E (.cl err) s') : Ends (call outcome c) s Q E := by
  unfold call
  rw [ends_bind, ends_get, ends_bind, ends_modify]
  cases hr : outcome s.trace.length c with
  | none => exact hok _ rfl rfl (by simp [failed_append])
  | some err => exact herr err _ rfl rfl (by simp [failed_append])

/-- A critical call in `initEpoch`. -/
theorem keeps_call_critical {c : ClCall} (hc : c.critical = true) : Keeps Worker.Locked Doomed (call outcome c) := by
  constructor
  rintro s ⟨hheld, hleaked, hfailed⟩
  refine ends_call ?_ ?_
  · intro s' hheld' hleaked' hfailed'
    exact ⟨hheld'.trans hheld, hleaked'.trans hleaked, hfailed'.trans hfailed⟩
  · intro err s' hheld' hleaked' hfailed'
    exact ⟨by rw [hfailed', hc, Bool.or_true], .inr ⟨⟨err, rfl⟩, hheld'.trans hheld⟩⟩

/-- A call of the loop. -/
theorem keeps_call {c : ClCall} (hc : c.critical = false) : Keeps Worker.Free Ended (call outcome c) := by
  constructor
  rintro s ⟨hheld, hleaked, hfailed⟩
  refine ends_call ?_ ?_
  · intro s' hheld' hleaked' hfailed'
    exact ⟨hheld'.trans hheld, hleaked'.trans hleaked, hfailed'.trans hfailed⟩
  · intro err s' hheld' hleaked' hfailed'
    refine .inl ⟨⟨hheld'.trans hheld, hleaked'.trans hleaked, ?_⟩, by simp, by simp⟩
    rw [hfailed', hfailed, hc]
    rfl

/-- Whoever pauses with the lock held waits for himself. -/
theorem ends_giveUp {s : Worker} (hheld : s.held = true) (hfailed : s.failed = true) {Q : Bool → Worker → Prop} :
    Ends (giveUp outcome) s Q Doomed := by
  simp only [giveUp, pause, kickMiner, lock, ends_bind, ends_get, ends_ite, hheld]
  simp [Doomed, hfailed]

/-- The error paths of `initEpoch` do not get to their end. -/
theorem ends_catchCl_giveUp {x : WorkerM Bool} {s : Worker} {h : ClError → WorkerM Bool}
    (hx : Ends x s (fun b s' => b = true ∧ s'.Locked) Doomed)
    (hh : ∀ err s', s'.held = true → s'.failed = true →
      Ends (h err) s' (fun b s' => b = true ∧ s'.Locked) Doomed) :
    Ends (catchCl x h) s (fun b s' => b = true ∧ s'.Locked) Doomed := by
  refine ends_catchCl hx ?_ fun e s' _ he => he
  rintro err s' ⟨hfailed, hdead | ⟨-, hheld⟩⟩
  · cases hdead
  · exact hh err s' hheld hfailed

theorem ends_throw_cl {s : Worker} {α : Type} {Q : α → Worker → Prop} {err : ClError} (hheld : s.held = true)
    (hfailed : s.failed = true) : Ends (throw (.cl err) : WorkerM α) s Q Doomed :=
  ⟨hfailed, .inr ⟨⟨err, rfl⟩, hheld⟩⟩

/-- The buffer of the whole DAG may fail. -/
theorem keeps_createDag : Keeps Worker.Locked Doomed (createDag outcome cfg) := by
  constructor
  rintro s ⟨hheld, hleaked, hfailed⟩
  unfold createDag
  split
  · exact ⟨hheld, hleaked, hfailed⟩
  refine @ends_catchCl _ _ _ s _ Doomed (fun e s' => (∃ err, e = .cl err) ∧ s'.Locked) ?_ ?_ ?_
  · rw [ends_bind]
    refine ends_call ?_ ?_
    · intro s' hheld' hleaked' hfailed'
      exact ⟨hheld'.trans hheld, hleaked'.trans hleaked, hfailed'.trans hfailed⟩
    · intro err s' hheld' hleaked' hfailed'
      refine ⟨⟨err, rfl⟩, hheld'.trans hheld, hleaked'.trans hleaked, ?_⟩
      rw [hfailed', hfailed]
      rfl
  · exact fun err s' hs' => hs'.2
  · rintro e s' hne ⟨⟨err, rfl⟩, -⟩
    exact absurd rfl (hne err)

theorem ends_createBuffers {s : Worker} (hs : s.Locked) :
    Ends (createBuffers outcome cfg) s (fun b s' => b = true ∧ s'.Locked) Doomed := by
  unfold createBuffers
  refine ends_catchCl_giveUp ?_ fun err s' hheld hfailed => ?_
  · refine (keeps_call_critical rfl).ends_bind hs fun _ s hs => ?_
    refine (keeps_call_critical rfl).ends_bind hs fun _ s hs => ?_
    refine (keeps_call_critical rfl).ends_bind hs fun _ s hs => ?_
    refine keeps_createDag.ends_bind hs fun dagOk s hs => ?_
    cases dagOk with
    | true => exact ⟨rfl, hs⟩
    | false =>
      refine (keeps_call_critical rfl).ends_bind hs fun _ s hs => ?_
      exact (keeps_call_critical rfl).ends_bind hs fun _ s hs => ⟨rfl, hs⟩
  · split
    · exact ends_giveUp hheld hfailed
    · exact ends_throw_cl hheld hfailed

theorem ends_buildProgram {s : Worker} (hs : s.Locked) :
    Ends (buildProgram outcome) s (fun b s' => b = true ∧ s'.Locked) Doomed := by
  unfold buildProgram
  refine (keeps_call_critical rfl).ends_bind hs fun _ s hs => ?_
  refine ends_catchCl_giveUp ?_ fun err s' hheld hfailed => ?_
  · exact (keeps_call_critical rfl).ends_bind hs fun _ s hs => ⟨rfl, hs⟩
  · split
    · rw [ends_bind]
      refine ends_call ?_ ?_
      · intro s'' hheld' _ hfailed'
        exact ends_giveUp (hheld'.trans hheld) (hfailed'.trans hfailed)
      · intro err s'' hheld' _ hfailed'
        exact ⟨by rw [hfailed', hfailed]; rfl, .inr ⟨⟨err, rfl⟩, hheld'.trans hheld⟩⟩
    · exact ends_throw_cl hheld hfailed

theorem ends_createKernels {s : Worker} (hs : s.Locked) :
    Ends (createKernels outcome) s (fun b s' => b = true ∧ s'.Locked) Doomed := by
  unfold createKernels
  refine ends_catchCl_giveUp ?_ fun err s' hheld hfailed => ends_giveUp hheld hfailed
  refine (keeps_call_critical rfl).ends_bind hs fun _ s hs => ?_
  refine (keeps_call_critical rfl).ends_bind hs fun _ s hs => ?_
  exact (keeps_call_critical rfl).ends_bind hs fun _ s hs => ⟨rfl, hs⟩

theorem keeps_calls {c : ClCall} (hc : c.critical = true) (n : ℕ) :
    Keeps Worker.Locked Doomed (calls outcome c n) := by
  induction n with
  | zero => exact ⟨fun s hs => hs⟩
  | succ n ih => exact (keeps_call_critical hc).bind fun _ => ih

theorem keeps_generateDag (n : ℕ) : Keeps Worker.Locked Doomed (generateDag outcome n) := by
  induction n with
  | zero => exact ⟨fun s hs => hs⟩
  | succ n ih =>
    exact (keeps_call_critical rfl).bind fun _ =>
      (keeps_call_critical rfl).bind fun _ => (keeps_call_critical rfl).bind fun _ => ih

/-- A part of `setUpEpoch` that does not return `false`. -/
theorem ends_unless {x : WorkerM Bool} {f : WorkerM Bool} {s : Worker} {Q : Bool → Worker → Prop}
    (hx : Ends x s (fun b s' => b = true ∧ s'.Locked) Doomed) (hf : ∀ s', s'.Locked → Ends f s' Q Doomed) :
    Ends (do if !(← x) then return false else f) s Q Doomed := by
  rw [ends_bind]
  refine hx.imp ?_ fun _ _ h => h
  rintro b s' ⟨rfl, hs'⟩
  exact hf s' hs'

theorem ends_lock {s : Worker} (hs : s.Free) {E : Stopped → Worker → Prop} :
    Ends lock s (fun _ s' => s'.Locked) E := by
  obtain ⟨hheld, hleaked, hfailed⟩ := hs
  simp only [lock, ends_bind, ends_get, ends_ite, hheld]
  simp only [Bool.false_eq_true, not_false_eq_true, false_implies, true_implies, true_and, ends_modify]
  exact ⟨rfl, hleaked, hfailed⟩

theorem ends_freeBuffers {s : Worker} (hs : s.Free) {E : Stopped → Worker → Prop} :
    Ends freeBuffers s (fun _ s' => s'.Locked) E := by
  unfold freeBuffers
  rw [ends_bind]
  exact (ends_lock hs).imp (fun _ _ h => h) fun _ _ h => h

theorem ends_unlock {s : Worker} (hs : s.Locked) {E : Stopped → Worker → Prop} :
    Ends unlock s (fun _ s' => s'.Free) E := by
  obtain ⟨hheld, hleaked, hfailed⟩ := hs
  simp only [unlock, ends_bind, ends_get, ends_ite, hheld]
  simp only [Bool.not_true, Bool.false_eq_true, not_false_eq_true, false_implies, true_implies, true_and,
    ends_modify]
  exact ⟨rfl, hleaked, hfailed⟩

/-- Pausing with the lock free: only writing the abort flag can go wrong. -/
theorem ends_pause {s : Worker} (hs : s.Free) : Ends (pause outcome) s (fun _ s' => s'.Free) Doomed := by
  unfold pause kickMiner
  rw [ends_bind]
  refine (ends_lock hs).imp (fun _ s' hs' => ?_) fun _ _ h => h
  rw [ends_bind, ends_get]
  split
  · exact (keeps_call_critical rfl).ends_bind hs' fun _ s'' hs'' => ends_unlock hs''
  · exact ends_unlock hs'

/-- **The initialisation holds the lock to its end**, unless a critical call fails. -/
theorem ends_setUpEpoch {s : Worker} (hs : s.Free) (launches : ℕ) :
    Ends (setUpEpoch outcome cfg launches) s (fun b s' => b = true ∧ s'.Locked) Doomed := by
  unfold setUpEpoch
  rw [ends_bind]
  refine (ends_freeBuffers hs).imp (fun _ s hs => ?_) fun _ _ h => h
  refine (keeps_call_critical rfl).ends_bind hs fun _ s hs => ?_
  refine (keeps_call_critical rfl).ends_bind hs fun _ s hs => ?_
  refine (keeps_modify (f := fun s : Worker => { s with queue := true }) fun _ hs => hs).ends_bind hs
    fun _ s hs => ?_
  refine (keeps_call_critical rfl).ends_bind hs fun _ s hs => ?_
  refine (keeps_modify (f := fun s : Worker => { s with abortqueue := true }) fun _ hs => hs).ends_bind hs
    fun _ s hs => ?_
  refine ends_unless (ends_createBuffers hs) fun s hs => ?_
  refine ends_unless (ends_buildProgram hs) fun s hs => ?_
  refine ends_unless (ends_createKernels hs) fun s hs => ?_
  refine (keeps_calls rfl 4).ends_bind hs fun _ s hs => ?_
  refine (keeps_call_critical rfl).ends_bind hs fun _ s hs => ?_
  refine (keeps_calls rfl 4).ends_bind hs fun _ s hs => ?_
  refine (keeps_generateDag launches).ends_bind hs fun _ s hs => ?_
  exact (keeps_calls rfl 5).ends_bind hs fun _ s hs => ⟨rfl, hs⟩

theorem ends_initEpoch {s : Worker} (hs : s.Free) (epoch : ℤ) (launches : ℕ) :
    Ends (initEpoch outcome cfg epoch launches) s (fun _ s' => s'.Free) Doomed := by
  unfold initEpoch
  split
  · rw [ends_bind]
    exact (ends_pause hs).imp (fun _ _ h => h) fun _ _ h => h
  · refine ends_unless (ends_catchCl_giveUp (ends_setUpEpoch hs launches) ?_) fun s hs => ?_
    · exact fun err s' hheld hfailed => ends_giveUp hheld hfailed
    · rw [ends_bind]
      exact (ends_unlock hs).imp (fun _ _ h => h) fun _ _ h => h

/-- `initEpoch` leaves the lock free, unless a critical call fails. -/
theorem ends_initEpochObserved {s : Worker} (hs : s.Free) (epoch : ℤ) (launches : ℕ) :
    Ends (initEpochObserved outcome cfg epoch launches) s (fun _ s' => s'.Free) Doomed := by
  unfold initEpochObserved
  rw [ends_bind, ends_tryCatch]
  refine (ends_initEpoch hs epoch launches).imp ?_ ?_
  · rintro b s' ⟨hheld, hleaked, hfailed⟩
    rw [ends_bind, ends_modify]
    exact ⟨hheld, by rw [hheld, hleaked]; rfl, hfailed⟩
  · intro e s' hdoomed
    rw [ends_bind, ends_modify]
    exact hdoomed

/-- A free worker that follows a null pointer ends with the lock free. -/
theorem keeps_useQueue : Keeps Worker.Free Ended useQueue := by
  constructor
  intro s hs
  unfold useQueue
  rw [ends_bind, ends_get]
  split
  · exact .inl ⟨hs, by simp, by simp⟩
  · exact hs

theorem keeps_runKernel (w : WorkPackage) : Keeps Worker.Free Ended (runKernel outcome w) :=
  (keeps_call rfl).bind fun _ => keeps_useQueue.bind fun _ => (keeps_call rfl).bind fun _ =>
    keeps_modify fun _ hs => hs

theorem keeps_newHeader (w : WorkPackage) : Keeps Worker.Free Ended (newHeader outcome w) :=
  keeps_useQueue.bind fun _ => (keeps_call rfl).bind fun _ => (keeps_call rfl).bind fun _ =>
    (keeps_call rfl).bind fun _ => keeps_runKernel w

theorem keeps_readResults : Keeps Worker.Free Ended (readResults outcome) := by
  constructor
  intro s hs
  unfold readResults
  rw [ends_bind, ends_get]
  split
  · exact ((keeps_call rfl).bind fun _ => keeps_call rfl).ends s hs
  · exact hs

theorem keeps_mine (r : Round) : Keeps Worker.Free Ended (mine outcome cfg r) := by
  constructor
  intro s hs
  have htrue {x : WorkerM Unit} (hx : Keeps Worker.Free Ended x) {s : Worker} (hs : s.Free) :
      Ends (do x; return true) s (fun _ => Worker.Free) Ended := hx.ends_bind hs fun _ _ hs => hs
  unfold mine
  rw [ends_bind, ends_get]
  dsimp only
  split
  · exact htrue (keeps_runKernel r.w) hs
  split
  · exact htrue (keeps_newHeader r.w) hs
  rw [ends_bind]
  refine (ends_initEpochObserved hs r.w.epoch r.launches).imp (fun b s hs => ?_) fun _ _ h => .inr h
  cases b with
  | true => exact htrue (keeps_newHeader r.w') hs
  | false => exact hs

/-- A round leaves the lock free, or the worker is doomed. -/
theorem keeps_round (r : Round) : Keeps Worker.Free Ended (round outcome cfg r) := by
  refine keeps_readResults.bind fun _ => ?_
  split
  · exact ⟨fun s hs => hs⟩
  · exact keeps_mine r

theorem keeps_rounds (rs : List Round) : Keeps Worker.Free Ended (rounds outcome cfg rs) := by
  induction rs with
  | nil => exact ⟨fun s hs => hs⟩
  | cons r rs ih =>
    refine (keeps_round r).bind fun b => ?_
    cases b with
    | true => exact ih
    | false => exact ⟨fun s hs => hs⟩

/-- How the loop ends, and what `free_buffers` and `unlock` make of it. -/
theorem ends_workLoop (found : Bool) (rs : List Round) :
    Ends (workLoop outcome cfg found rs) {} (fun _ => Worker.Free)
      fun e s => s.Free ∧ e ≠ .deadlock ∧ e ≠ .notLocked ∨ s.failed = true ∧ e = .deadlock := by
  have hinit : ({} : Worker).Free := ⟨rfl, rfl, rfl⟩
  -- a doomed worker that locks again waits for itself
  have hdead {α : Type} {s : Worker} (hheld : s.held = true) (hfailed : s.failed = true) {f : Unit → WorkerM α}
      {Q : α → Worker → Prop} :
      Ends (freeBuffers >>= f) s Q
        fun e s => s.Free ∧ e ≠ .deadlock ∧ e ≠ .notLocked ∨ s.failed = true ∧ e = .deadlock := by
    simp only [freeBuffers, lock, ends_bind, ends_get, ends_ite, hheld]
    simp [hfailed]
  unfold workLoop
  rw [ends_bind]
  refine ends_call ?_ ?_
  · intro s hheld hleaked hfailed
    have hs : s.Free := ⟨hheld, hleaked, hfailed⟩
    split
    · refine @ends_catchCl _ _ _ s _ _ Ended ?_ ?_ ?_
      · refine (keeps_rounds rs).ends_bind hs fun _ s hs => ?_
        have hfinish (s : Worker) (hs : s.Free) :
            Ends (do freeBuffers; unlock) s (fun _ => Worker.Free) Ended := by
          rw [ends_bind]
          exact (ends_freeBuffers hs).imp (fun _ _ hs => ends_unlock hs) fun _ _ h => h
        rw [ends_bind, ends_get]
        split
        · exact (keeps_call rfl).ends_bind hs fun _ s hs => hfinish s hs
        · exact hfinish s hs
      · rintro err s (⟨hs, -⟩ | ⟨hfailed, hdead' | ⟨-, hheld⟩⟩)
        · rw [ends_bind]
          refine (ends_freeBuffers hs).imp (fun _ s hs => ?_) fun _ _ h => h
          rw [ends_bind]
          refine (ends_unlock hs).imp (fun _ s hs => ?_) fun _ _ h => h
          exact .inl ⟨hs, by simp, by simp⟩
        · cases hdead'
        · exact hdead hheld hfailed
      · rintro e s hne (hclean | ⟨hfailed, hdead' | ⟨⟨err, rfl⟩, -⟩⟩)
        · exact .inl hclean
        · exact .inr ⟨hfailed, hdead'⟩
        · exact absurd rfl (hne err)
    · exact hs
  · intro err s hheld hleaked hfailed
    exact .inl ⟨⟨hheld, hleaked, hfailed⟩, by simp, by simp⟩

end Rules

section Discipline

variable (outcome : ℕ → ClCall → Option ClError) (cfg : EpochSettings) (found : Bool) (rs : List Round)

/-- The lock is used correctly: the worker never locks it twice and never unlocks it without
holding it, and `initEpoch` and `workLoop` leave it free, whether they return or throw. -/
def Disciplined : Prop :=
  Ends (workLoop outcome cfg found rs) {} (fun _ s => s.held = false ∧ s.leaked = false)
    fun e s => e ≠ .deadlock ∧ e ≠ .notLocked ∧ s.held = false ∧ s.leaked = false

/-- **When the abort lock is used correctly**: exactly when no OpenCL call of `initEpoch` after
`free_buffers` fails, apart from the buffer of the whole DAG, and the abort flag can be written. -/
theorem abort_mutex_disciplined_iff :
    Disciplined outcome cfg found rs ↔ (final (workLoop outcome cfg found rs) {}).failed = false := by
  have hends := @ends_workLoop outcome cfg found rs
  unfold Disciplined
  unfold Ends final at *
  cases hrun : workLoop outcome cfg found rs {} with
  | ok a s =>
    rw [hrun] at hends
    exact iff_of_true ⟨hends.1, hends.2.1⟩ hends.2.2
  | error e s =>
    rw [hrun] at hends
    rcases hends with ⟨hfree, hlocked, hunlocked⟩ | ⟨hfailed, hdead⟩
    · exact iff_of_true ⟨hlocked, hunlocked, hfree.1, hfree.2.1⟩ hfree.2.2
    · refine iff_of_false (fun h => h.1 hdead) ?_
      simp only at hfailed ⊢
      rw [hfailed]
      simp

end Discipline

/-- The kernel of the first epoch cannot be built. -/
def buildFails : ℕ → ClCall → Option ClError := fun _ c => if c = .build then some .buildError else none

/-- A device with memory enough that gets one package. -/
def oneRound : List Round := [{ w := { header := fun _ => 1, epoch := 7 } }]

/-- The worker waits for itself when the kernel cannot be built. -/
theorem abort_mutex_deadlock :
    ¬ Disciplined buildFails ⟨1, fun _ => 0, false⟩ true oneRound ∧
      thrown (workLoop buildFails ⟨1, fun _ => 0, false⟩ true oneRound) {} = some .deadlock := by
  have hthrown : thrown (workLoop buildFails ⟨1, fun _ => 0, false⟩ true oneRound) {} = some .deadlock := by
    decide +kernel
  refine ⟨fun h => ?_, hthrown⟩
  unfold Disciplined Ends at h
  unfold thrown at hthrown
  split at h
  · rename_i hrun
    rw [hrun] at hthrown
    cases hthrown
  · rename_i hrun
    rw [hrun] at hthrown
    exact h.1 (Option.some.inj hthrown)

end CLMiner
end EtcMiner
