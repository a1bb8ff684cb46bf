/-
# The worker thread

`Worker` in `libdev/Worker.cpp`, which every miner inherits.  `m_state` is shared between the
thread that runs `workLoop` again and again and the threads that call `startWorking`,
`triggerStopWorking`, `stopWorking` and the destructor; the callers take turns by
`workerWorkMutex`, the thread takes no lock.  A step is one access to `m_state` or to the mutex,
and the steps come in any order.

`Fits` says what `m_state`, the owner of the mutex and the thread can be about at one time, and
every step keeps it (`next_inv`).  So a run of `workLoop` begins for every start that is accepted
and for nothing else (`starts_counted`), `stopWorking` returns only when `workLoop` has ended
(`working_after_stop`) and the destructor only when the thread has (`destructor_leaves_no_thread`),
and no call keeps the mutex forever if `workLoop` heeds `shouldStop` (`mutex_given_back`).
-/

import EtcMiner.Lib.Endless
import EtcMiner.Lib.Tally
import Mathlib.Logic.Function.Basic

namespace EtcMiner
namespace Common

open Lib

/-- `WorkerState`. -/
inductive WorkerState where
  | starting
  | started
  | stopping
  | stopped
  | killing
deriving DecidableEq

namespace Worker

/-- Where the thread is: at the test of its outer loop, at the exchange of `Starting` by
`Started`, in `workLoop`, at the exchange by `Stopped`, at the exchange that restores `ex`, at
the test of its inner loop, or at its end. -/
inductive ThreadPc where
  | test
  | enter
  | working
  | leave
  | restore (ex : WorkerState)
  | parked
  | ended
deriving DecidableEq

/-- The functions that other threads call. -/
inductive Op where
  | startWorking
  | triggerStopWorking
  | stopWorking
  | destructor
deriving DecidableEq

/-- Where the caller that has the mutex is: at `if (m_work)`, in the loop of `startWorking`, in
that of `stopWorking`, in `join`, or about to return. -/
inductive Stage where
  | inside (op : Op)
  | awaitStarted
  | awaitStopped
  | joining
  | returning (op : Op)
deriving DecidableEq

/-- `m_state`, the thread of `m_work`, the owner of the mutex and the calls that wait for it.
`destroyed` is set by the destructor, which no call may outlive. -/
structure State (κ : Type*) where
  mState : WorkerState := .starting
  work : Option ThreadPc := none
  lock : Option (κ × Stage) := none
  waiting : κ → Option Op := fun _ => none
  destroyed : Bool := false

/-- The steps: the thread `k` calls a function, or goes on in the one it has called; the worker
thread goes on, and `workLoop` returns or throws. -/
inductive Event (κ : Type*) where
  | call (k : κ) (op : Op)
  | step (k : κ)
  | thread
  | workLoopEnds

variable {κ : Type*}

/-- The next step of the caller `k`, who has the mutex. -/
def advance (s : State κ) (k : κ) : Stage → State κ
  | .inside .startWorking =>
    match s.work with
    | some _ =>
      { s with
        mState := if s.mState = .stopped then .starting else s.mState
        lock := some (k, .awaitStarted) }
    | none => { s with mState := .starting, work := some .test, lock := some (k, .awaitStarted) }
  | .inside .triggerStopWorking =>
    match s.work with
    | some _ =>
      { s with
        mState := if s.mState = .started then .stopping else s.mState
        lock := some (k, .returning .triggerStopWorking) }
    | none => { s with lock := some (k, .returning .triggerStopWorking) }
  | .inside .stopWorking =>
    match s.work with
    | some _ =>
      { s with
        mState := if s.mState = .started then .stopping else s.mState
        lock := some (k, .awaitStopped) }
    | none => { s with lock := some (k, .returning .stopWorking) }
  | .inside .destructor =>
    match s.work with
    | some _ => { s with mState := .killing, lock := some (k, .joining) }
    | none => { s with lock := some (k, .returning .destructor) }
  | .awaitStarted =>
    if s.mState = .starting then s else { s with lock := some (k, .returning .startWorking) }
  | .awaitStopped =>
    if s.mState = .stopped then { s with lock := some (k, .returning .stopWorking) } else s
  | .joining =>
    match s.work with
    | some .ended => { s with work := none, lock := some (k, .returning .destructor) }
    | _ => s
  | .returning op => { s with lock := none, destroyed := s.destroyed || decide (op = .destructor) }

/-- The next step of the worker thread.  In `workLoop` it goes on working. -/
def threadStep (s : State κ) : ThreadPc → State κ
  | .test => { s with work := some (if s.mState = .killing then .ended else .enter) }
  | .enter =>
    { s with
      mState := if s.mState = .starting then .started else s.mState
      work := some .working }
  | .leave => { s with mState := .stopped, work := some (.restore s.mState) }
  | .restore ex =>
    { s with
      mState := if ex = .killing ∨ ex = .starting then ex else s.mState
      work := some .parked }
  | .parked => if s.mState = .stopped then s else { s with work := some .test }
  | .working => s
  | .ended => s

/-- What the owner of the mutex is about. -/
def State.stage (s : State κ) : Option Stage := s.lock.map Prod.snd

/-- The thread is in `workLoop`, or has just left it. -/
def Busy (m : WorkerState) (stage : Option Stage) : Prop :=
  (m = .started ∧ stage ≠ some .awaitStopped ∨ m = .stopping) ∧ stage ≠ some .joining ∧
      stage ≠ some (.returning .stopWorking) ∧ stage ≠ some (.returning .destructor) ∨
    m = .killing ∧ stage = some .joining

/-- The thread is done with `workLoop`. -/
def Resting (m : WorkerState) (stage : Option Stage) : Prop :=
  m = .stopped ∧ stage ≠ some .joining ∧ stage ≠ some (.returning .destructor) ∨
    m = .starting ∧ stage = some .awaitStarted ∨ m = .killing ∧ stage = some .joining

/-- What `m_state` and the owner of the mutex can be about when the thread is at a place.  The
state is `Starting` only while a `startWorking` waits for it to change, and `Killing` only while
the destructor waits for the thread. -/
def Fits (m : WorkerState) (stage : Option Stage) : Option ThreadPc → Prop
  | none => stage ≠ some .awaitStarted ∧ stage ≠ some .awaitStopped ∧ stage ≠ some .joining
  | some .test => m = .starting ∧ stage = some .awaitStarted ∨ m = .killing ∧ stage = some .joining
  | some .enter => m = .starting ∧ stage = some .awaitStarted
  | some .working => Busy m stage
  | some .leave => Busy m stage
  | some (.restore ex) =>
    ex = .killing ∧ m = .stopped ∧ stage = some .joining ∨
      (ex = .started ∨ ex = .stopping) ∧ Resting m stage
  | some .parked => Resting m stage
  | some .ended => m = .killing ∧ stage = some .joining

/-- The parties fit. -/
def State.Inv (s : State κ) : Prop := Fits s.mState s.stage s.work

section Step

variable {s : State κ}

/-- A caller takes the mutex. -/
theorem Fits.lock {m : WorkerState} {work : Option ThreadPc} {op : Op} (h : Fits m none work) :
    Fits m (some (.inside op)) work := by
  cases work with
  | none => simp [Fits]
  | some pc => cases pc <;> simp_all [Fits, Busy, Resting]

theorem advance_inv {k : κ} {stage : Stage} (hlock : s.lock = some (k, stage)) (h : s.Inv) :
    (advance s k stage).Inv := by
  unfold State.Inv State.stage at h ⊢
  rw [hlock, Option.map_some] at h
  cases hwork : s.work with
  | none =>
    rw [hwork] at h
    cases stage with
    | inside op => cases op <;> simp_all [advance, Fits]
    | _ => simp_all [advance, Fits]
  | some pc =>
    rw [hwork] at h
    cases stage with
    | inside op =>
      cases op <;> cases pc <;> simp_all [advance, Fits, Busy, Resting] <;> grind
    | returning op =>
      cases op <;> cases pc <;> simp_all [advance, Fits, Busy, Resting]
    | _ => cases pc <;> simp_all [advance, Fits, Busy, Resting] <;> grind

theorem threadStep_inv {pc : ThreadPc} (hwork : s.work = some pc) (h : s.Inv) : (threadStep s pc).Inv := by
  unfold State.Inv at h ⊢
  rw [hwork] at h
  cases pc with
  | restore ex => cases ex <;> simp_all [threadStep, State.stage, Fits, Resting]
  | parked =>
    simp only [threadStep]
    split
    · simpa [hwork] using h
    · simp_all [State.stage, Fits, Resting]
  | _ => simp_all [threadStep, State.stage, Fits, Busy, Resting] <;> grind

/-- A new worker. -/
theorem inv_init : ({} : State κ).Inv := by simp [State.Inv, State.stage, Fits]

end Step

variable [DecidableEq κ]

/-- The state after one step.  A thread makes one call at a time, and none gets the mutex of a
worker that is destroyed. -/
def next (s : State κ) : Event κ → State κ
  | .call k op =>
    if s.waiting k = none ∧ s.lock.map Prod.fst ≠ some k then
      { s with waiting := Function.update s.waiting k (some op) }
    else s
  | .step k =>
    match s.lock with
    | some (owner, stage) => if k = owner then advance s k stage else s
    | none =>
      match s.waiting k with
      | some op =>
        if s.destroyed then s
        else { s with lock := some (k, .inside op), waiting := Function.update s.waiting k none }
      | none => s
  | .thread =>
    match s.work with
    | some pc => threadStep s pc
    | none => s
  | .workLoopEnds => if s.work = some .working then { s with work := some .leave } else s

/-- **Every step keeps the parties fitting.** -/
theorem next_inv (s : State κ) (e : Event κ) (h : s.Inv) : (next s e).Inv := by
  cases e with
  | call k op =>
    simp only [next]
    split <;> exact h
  | step k =>
    simp only [next]
    split
    · next owner stage hlock =>
      split
      · next hk => exact advance_inv (hk ▸ hlock) h
      · exact h
    · next hlock =>
      have hfree : Fits s.mState none s.work := by simpa [State.Inv, State.stage, hlock] using h
      split
      · split
        · exact h
        · exact hfree.lock
      · exact h
  | thread =>
    simp only [next]
    split
    · next pc hwork => exact threadStep_inv hwork h
    · exact h
  | workLoopEnds =>
    simp only [next]
    split
    · next hwork =>
      unfold State.Inv at h ⊢
      rwa [hwork] at h
    · exact h

theorem run_inv (es : List (Event κ)) : (run next ({} : State κ) es).Inv :=
  Along.run_inv inv_init (fun s e h _ => next_inv s e h) (along_of_forall (fun _ _ => trivial) es)

/-! ## Starts and runs of `workLoop` -/

/-- The step begins a run of `workLoop`. -/
def begins (s : State κ) : Event κ → Bool
  | .thread => decide (s.work = some .enter)
  | _ => false

/-- The step makes the worker accept a start: it has no thread yet, or the exchange of `Stopped` by
`Starting` succeeds. -/
def accepts (s : State κ) : Event κ → Bool
  | .step k => decide (s.lock = some (k, .inside .startWorking) ∧ (s.work = none ∨ s.mState = .stopped))
  | _ => false

/-- The start that is accepted and has not begun. -/
def State.pending (s : State κ) : ℕ := if s.mState = .starting ∧ s.work ≠ none then 1 else 0

theorem advance_pending {s : State κ} {k : κ} {stage : Stage} (hlock : s.lock = some (k, stage)) (h : s.Inv) :
    (advance s k stage).pending = s.pending + (accepts s (.step k)).toNat := by
  unfold State.Inv State.stage at h
  rw [hlock, Option.map_some] at h
  cases hwork : s.work with
  | none =>
    rw [hwork] at h
    cases stage with
    | inside op => cases op <;> simp [advance, State.pending, accepts, hlock, hwork]
    | _ => simp_all [advance, State.pending, accepts, Fits]
  | some pc =>
    rw [hwork] at h
    cases stage with
    | inside op =>
      cases op <;> cases hm : s.mState <;>
        simp [advance, State.pending, accepts, hlock, hwork, hm]
      -- the destructor finds no start in progress
      cases pc <;> simp_all [Fits, Busy, Resting]
    | returning op => simp [advance, State.pending, accepts, hlock, hwork]
    | awaitStarted =>
      simp only [advance]
      split <;> simp [State.pending, accepts, hlock, hwork]
    | awaitStopped =>
      simp only [advance]
      split <;> simp [State.pending, accepts, hlock, hwork]
    | joining => cases pc <;> simp_all [advance, State.pending, accepts, Fits]

omit [DecidableEq κ] in
theorem threadStep_pending {s : State κ} {pc : ThreadPc} (hwork : s.work = some pc) (h : s.Inv) :
    (threadStep s pc).pending + (begins s .thread).toNat = s.pending := by
  unfold State.Inv at h
  rw [hwork] at h
  cases pc with
  | test => simp [threadStep, State.pending, begins, hwork]
  | enter =>
    obtain ⟨hm, -⟩ := h
    simp [threadStep, State.pending, begins, hwork, hm]
  | restore ex => cases ex <;> simp_all [threadStep, State.pending, begins, Fits]
  | parked =>
    simp only [threadStep]
    split <;> simp [State.pending, begins, hwork]
  | leave =>
    have hm : s.mState ≠ .starting := by
      intro hm
      simp [Fits, Busy, hm] at h
    simp [threadStep, State.pending, begins, hwork, hm]
  | working => simp [threadStep, begins, hwork]
  | ended => simp [threadStep, begins, hwork]

/-- A start that is accepted becomes pending, and it is pending until `workLoop` begins. -/
theorem next_pending (s : State κ) (e : Event κ) (h : s.Inv) :
    (next s e).pending + (begins s e).toNat = s.pending + (accepts s e).toNat := by
  cases e with
  | call k op =>
    simp only [next]
    split <;> rfl
  | step k =>
    simp only [next]
    split
    · next owner stage hlock =>
      split
      · next hk => exact advance_pending (hk ▸ hlock) h
      · next hk =>
        have hne : ¬ owner = k := fun h => hk h.symm
        simp [begins, accepts, hlock, hne]
    · next hlock => split <;> (try split) <;> simp [begins, accepts, hlock, State.pending]
  | thread =>
    simp only [next]
    split
    · next pc hwork => simpa [accepts] using threadStep_pending hwork h
    · next hwork => simp [begins, accepts, hwork]
  | workLoopEnds =>
    simp only [next]
    split
    · next hwork => simp [State.pending, begins, accepts, hwork]
    · rfl

omit [DecidableEq κ] in
/-- A start is pending only while its caller waits. -/
theorem State.Inv.pending_eq_zero {s : State κ} (h : s.Inv) (hstage : s.stage ≠ some .awaitStarted) :
    s.pending = 0 := by
  rw [State.pending, if_neg]
  rintro ⟨hm, hwork⟩
  obtain ⟨pc, hpc⟩ := Option.ne_none_iff_exists'.1 hwork
  rw [State.Inv, hm, hpc] at h
  cases pc <;> simp_all [Fits, Busy, Resting]

/-- Only a step that begins a run of `workLoop` brings the thread into it. -/
theorem begins_of_working (s : State κ) (e : Event κ) (hs : ¬ s.work = some .working)
    (hnext : (next s e).work = some .working) : begins s e = true := by
  cases e with
  | call k op =>
    simp only [next] at hnext
    split at hnext <;> exact absurd hnext hs
  | step k =>
    exfalso
    simp only [next] at hnext
    split at hnext
    · next owner stage hlock =>
      split at hnext
      · cases stage with
        | inside op => cases op <;> cases hwork : s.work <;> simp_all [advance]
        | joining =>
          simp only [advance] at hnext
          split at hnext <;> simp_all
        | _ => simp only [advance] at hnext; grind
      · exact hs hnext
    · split at hnext <;> (try split at hnext) <;> exact hs hnext
  | thread =>
    simp only [next] at hnext
    split at hnext
    · next pc hwork => cases pc <;> simp_all [threadStep, begins] <;> grind
    · exact absurd hnext hs
  | workLoopEnds =>
    simp only [next] at hnext
    split at hnext
    · next hwork => exact absurd hwork hs
    · exact absurd hnext hs

/-- **A run of `workLoop` begins for every start that is accepted**, and for nothing else: a start
that finds the worker started or stopping begins none.  When no `startWorking` waits, no accepted
start is left over. -/
theorem starts_counted (es : List (Event κ)) :
    tally next begins ({} : State κ) es + (run next {} es).pending = tally next accepts {} es ∧
      ((run next ({} : State κ) es).stage ≠ some .awaitStarted → (run next ({} : State κ) es).pending = 0) := by
  constructor
  · have hbalance : (run next {} es).pending + tally next begins {} es =
        ({} : State κ).pending + tally next accepts {} es := tally_balance inv_init next_inv next_pending es
    have h0 : ({} : State κ).pending = 0 := by simp [State.pending]
    omega
  · intro hstage
    have hinv : (run next ({} : State κ) es).Inv := run_inv es
    exact hinv.pending_eq_zero hstage

/-- **`stopWorking` returns when `workLoop` has ended**, and the thread is in it later only if a
start has been accepted since. -/
theorem working_after_stop {es es' : List (Event κ)}
    (hstop : (run next ({} : State κ) es).stage = some (.returning .stopWorking))
    (hworking : (run next ({} : State κ) (es ++ es')).work = some .working) :
    0 < tally next accepts (run next ({} : State κ) es) es' := by
  have hinv : (run next ({} : State κ) es).Inv := run_inv es
  have hout : ¬ (run next ({} : State κ) es).work = some .working := by
    intro hwork
    rw [State.Inv, hwork, hstop] at hinv
    simp [Fits, Busy] at hinv
  have hbegun : 0 < tally next begins (run next ({} : State κ) es) es' := by
    refine tally_pos (P := fun s => s.work = some .working) begins_of_working hout ?_
    rwa [run_append] at hworking
  have hbalance : (run next (run next ({} : State κ) es) es').pending + tally next begins (run next {} es) es' =
      (run next {} es).pending + tally next accepts (run next {} es) es' :=
    tally_balance hinv next_inv next_pending es'
  have hnone : (run next ({} : State κ) es).pending = 0 := hinv.pending_eq_zero (by simp [hstop])
  omega

/-- A run with a stop and a second start. -/
theorem working_after_stop_once :
    let es : List (Event Unit) := [.call () .startWorking, .step (), .step (), .thread, .thread, .step (), .step (),
      .call () .stopWorking, .step (), .step (), .workLoopEnds, .thread, .step ()]
    let es' : List (Event Unit) := [.step (), .call () .startWorking, .step (), .step (), .thread, .thread, .thread,
      .thread]
    0 < tally next accepts (run next ({} : State Unit) es) es' :=
  working_after_stop (by decide) (by decide)

/-! ## The destructor -/

/-- The destructor has joined the thread. -/
def State.Joined (s : State κ) : Prop :=
  s.work = none ∧ (s.stage = some (.returning .destructor) ∨ s.lock = none ∧ s.destroyed = true)

theorem next_joined (s : State κ) (e : Event κ) (h : s.Joined) : (next s e).Joined := by
  obtain ⟨hwork, hstage⟩ := h
  cases e with
  | call k op =>
    simp only [next]
    split <;> exact ⟨hwork, hstage⟩
  | step k =>
    obtain hret | ⟨hlock, hdestroyed⟩ := hstage
    · obtain ⟨⟨owner, stage⟩, hlock, rfl⟩ := Option.map_eq_some_iff.1 hret
      simp only [next, hlock]
      split
      · simp_all [advance, State.Joined]
      · exact ⟨hwork, .inl hret⟩
    · simp only [next, hlock, hdestroyed, if_true]
      split <;> exact ⟨hwork, .inr ⟨hlock, hdestroyed⟩⟩
  | thread => simpa [next, hwork] using ⟨hwork, hstage⟩
  | workLoopEnds => simpa [next, hwork] using ⟨hwork, hstage⟩

/-- The event that the owner of the mutex waits for. -/
def State.waitsFor (s : State κ) : Stage → κ → Event κ
  | .inside _, k => .step k
  | .returning _, k => .step k
  | .awaitStarted, k => if s.mState = .starting then .thread else .step k
  | .awaitStopped, k =>
    if s.mState = .stopped then .step k else if s.work = some .working then .workLoopEnds else .thread
  | .joining, k =>
    if s.work = some .ended then .step k else if s.work = some .working then .workLoopEnds else .thread

/-- How far the thread is from the start of `workLoop`. -/
def toStart : Option ThreadPc → ℕ
  | some .enter => 1
  | some .test => 2
  | some .parked => 3
  | some (.restore _) => 4
  | _ => 0

/-- How far the thread is from its end, once the state is `Killing`. -/
def toEnd : Option ThreadPc → ℕ
  | some .test => 1
  | some .parked => 2
  | some (.restore _) => 3
  | some .leave => 4
  | some .working => 5
  | _ => 0

/-- The number of steps until the mutex is free. -/
def State.rank (s : State κ) : Stage → ℕ
  | .inside _ => 8
  | .returning _ => 1
  | .awaitStarted => if s.mState = .starting then 2 + toStart s.work else 2
  | .awaitStopped => if s.mState = .stopped then 2 else if s.work = some .working then 4 else 3
  | .joining => 2 + toEnd s.work

section Live

variable {s : State κ} {k : κ} {stage : Stage}

omit [DecidableEq κ] in
theorem threadStep_lock (pc : ThreadPc) : (threadStep s pc).lock = s.lock := by
  cases pc with
  | parked =>
    simp only [threadStep]
    split <;> rfl
  | _ => rfl

omit [DecidableEq κ] in
/-- A caller that has passed `if (m_work)` is nearer to its return than one that has not. -/
theorem rank_lt_inside (hstage : ∀ op, stage ≠ .inside op) (s : State κ) : s.rank stage < 8 := by
  have hstart : toStart s.work ≤ 4 := by unfold toStart; split <;> simp
  have hend : toEnd s.work ≤ 5 := by unfold toEnd; split <;> simp
  cases stage with
  | inside op => exact absurd rfl (hstage op)
  | _ => simp only [State.rank]; grind

omit [DecidableEq κ] in
theorem advance_inside (op : Op) :
    ∃ stage, (advance s k (.inside op)).lock = some (k, stage) ∧ ∀ op, stage ≠ .inside op := by
  cases op <;> cases hwork : s.work <;> simp [advance, hwork]

/-- What the owner waits for brings the mutex nearer to being free. -/
theorem helps (hlock : s.lock = some (k, stage)) (h : s.Inv) :
    (next s (s.waitsFor stage k)).lock = none ∨ ∃ stage', (next s (s.waitsFor stage k)).lock = some (k, stage') ∧
      (next s (s.waitsFor stage k)).rank stage' < s.rank stage := by
  rw [State.Inv, State.stage, hlock, Option.map_some] at h
  cases stage with
  | inside op =>
    have hnext : next s (s.waitsFor (.inside op) k) = advance s k (.inside op) := by
      simp [State.waitsFor, next, hlock]
    obtain ⟨stage', hlock', hstage'⟩ : ∃ stage', (advance s k (.inside op)).lock = some (k, stage') ∧
        ∀ op, stage' ≠ .inside op := advance_inside op
    rw [hnext]
    exact .inr ⟨stage', hlock', rank_lt_inside hstage' _⟩
  | returning op => simp [State.waitsFor, next, hlock, advance]
  | awaitStarted =>
    refine .inr ?_
    by_cases hm : s.mState = .starting
    · -- the thread is on its way to `workLoop`
      cases hwork : s.work with
      | none => simp [hwork, Fits] at h
      | some pc =>
        rw [hm, hwork] at h
        refine ⟨.awaitStarted, ?_, ?_⟩
        · simp [State.waitsFor, hm, next, hwork, threadStep_lock, hlock]
        · cases pc <;> simp_all [State.waitsFor, next, threadStep, State.rank, toStart, Fits, Busy, Resting]
          split <;> simp
    · exact ⟨.returning .startWorking, by simp [State.waitsFor, hm, next, hlock, advance, State.rank]⟩
  | awaitStopped =>
    refine .inr ?_
    by_cases hm : s.mState = .stopped
    · exact ⟨.returning .stopWorking, by simp [State.waitsFor, hm, next, hlock, advance, State.rank]⟩
    · refine ⟨.awaitStopped, ?_⟩
      cases hwork : s.work with
      | none => simp [hwork, Fits] at h
      | some pc =>
        rw [hwork] at h
        cases pc <;> simp_all [State.waitsFor, next, threadStep, State.rank, Fits, Busy, Resting]
  | joining =>
    refine .inr ?_
    by_cases hended : s.work = some .ended
    · exact ⟨.returning .destructor, by simp [State.waitsFor, hended, next, hlock, advance, State.rank, toEnd]⟩
    · refine ⟨.joining, ?_⟩
      cases hwork : s.work with
      | none => simp [hwork, Fits] at h
      | some pc =>
        rw [hwork] at h
        cases pc <;> simp_all [State.waitsFor, next, threadStep, State.rank, toEnd, Fits, Busy, Resting]

/-- Nothing else changes what the owner waits for. -/
theorem stays (hlock : s.lock = some (k, stage)) (h : s.Inv) {e : Event κ} (he : e ≠ s.waitsFor stage k) :
    (next s e).lock = some (k, stage) ∧ (next s e).rank stage = s.rank stage ∧
      (next s e).waitsFor stage k = s.waitsFor stage k := by
  rw [State.Inv, State.stage, hlock, Option.map_some] at h
  cases e with
  | call k' op =>
    simp only [next]
    split
    · refine ⟨hlock, ?_, ?_⟩
      · cases stage <;> rfl
      · cases stage <;> rfl
    · exact ⟨hlock, rfl, rfl⟩
  | step k' =>
    have hsame : next s (.step k') = s := by
      simp only [next, hlock]
      split
      · next hk =>
        -- the owner tests its condition once more
        subst hk
        cases stage <;> simp_all [State.waitsFor, advance]
      · rfl
    rw [hsame]
    exact ⟨hlock, rfl, rfl⟩
  | thread =>
    cases hwork : s.work with
    | none => simpa [next, hwork] using hlock
    | some pc =>
      rw [hwork] at h
      refine ⟨by simp [next, hwork, threadStep_lock, hlock], ?_⟩
      simp only [next, hwork]
      cases stage with
      | inside op => exact ⟨rfl, rfl⟩
      | returning op => exact ⟨rfl, rfl⟩
      | awaitStarted =>
        -- the state has changed already, and nothing sets it to `Starting` again
        have hm : s.mState ≠ .starting := by
          intro hm
          simp [State.waitsFor, hm] at he
        have hm' : (threadStep s pc).mState ≠ .starting := by
          cases pc <;> simp_all [threadStep, Fits] <;> grind
        simp [State.rank, State.waitsFor, hm, hm']
      | awaitStopped =>
        by_cases hm : s.mState = .stopped
        · have hm' : (threadStep s pc).mState = .stopped := by
            cases pc <;> simp_all [threadStep, Fits]
            grind
          simp [State.rank, State.waitsFor, hm, hm']
        · -- the thread is in `workLoop`
          have hpc : pc = .working := by
            by_contra hpc
            simp [State.waitsFor, hm, hwork, hpc] at he
          simp [hpc, threadStep]
      | joining =>
        -- the thread is in `workLoop` or at its end
        have hpc : pc = .working ∨ pc = .ended := by
          by_contra hpc
          rw [not_or] at hpc
          simp [State.waitsFor, hwork, hpc] at he
        obtain rfl | rfl := hpc <;> exact ⟨rfl, rfl⟩
  | workLoopEnds =>
    simp only [next]
    split
    · next hwork =>
      rw [hwork] at h
      refine ⟨hlock, ?_⟩
      cases stage <;> simp_all [State.waitsFor, State.rank, toStart, Fits, Busy]
    · exact ⟨hlock, rfl, rfl⟩

omit [DecidableEq κ] in
/-- The owner waits for itself, for the thread, or for the end of a `workLoop` that is told to stop. -/
theorem waitsFor_cases (hlock : s.lock = some (k, stage)) (h : s.Inv) :
    s.waitsFor stage k = .step k ∨ s.waitsFor stage k = .thread ∨
      s.waitsFor stage k = .workLoopEnds ∧ s.work = some .working ∧ s.mState ≠ .started := by
  rw [State.Inv, State.stage, hlock, Option.map_some] at h
  by_cases hwork : s.work = some .working
  · rw [hwork] at h
    cases stage <;> simp_all [State.waitsFor, Fits, Busy]
    grind
  · cases stage <;> simp only [State.waitsFor, hwork] <;> grind

end Live

/-- **No call keeps the mutex forever**, if the threads go on and `workLoop` ends at some time once
`shouldStop` tells it to. -/
theorem mutex_given_back {ev : ℕ → Event κ} (hthread : ∀ n, ∃ m, n ≤ m ∧ ev m = .thread)
    (hcallers : ∀ k n, ∃ m, n ≤ m ∧ ev m = .step k)
    (hheeds : ∀ n, (trace next ({} : State κ) ev n).work = some .working →
      (trace next ({} : State κ) ev n).mState ≠ .started → ∃ m, n ≤ m ∧ ev m = .workLoopEnds) (n : ℕ) :
    ∃ m, n ≤ m ∧ (trace next ({} : State κ) ev m).lock = none := by
  have hinv (n : ℕ) : (trace next ({} : State κ) ev n).Inv :=
    trace_inv (P := fun _ _ => True) inv_init (fun s e h _ => next_inv s e h) (fun _ => trivial) n
  refine @eventually_of_helpful (State κ) (Event κ) ev ℕ _ (trace next {} ev) _
    (fun s => (s.lock.map fun owner => s.rank owner.2).getD 0) (fun s => s.lock = none)
    (fun s e => ∃ k stage, s.lock = some (k, stage) ∧ e = s.waitsFor stage k) ?_ ?_ ?_ n
  · rintro n - ⟨k, stage, hlock, he⟩
    simp only [trace, he]
    obtain hfree | ⟨stage', hlock', hlt⟩ := helps hlock (hinv n)
    · exact .inl hfree
    · simpa [hlock, hlock'] using hlt
  · intro n hgoal hnot
    obtain ⟨⟨k, stage⟩, hlock⟩ := Option.ne_none_iff_exists'.1 hgoal
    have he : ev n ≠ (trace next {} ev n).waitsFor stage k := fun he => hnot ⟨k, stage, hlock, he⟩
    obtain ⟨hlock', hrank, hwaits⟩ := stays hlock (hinv n) he
    refine .inr ⟨?_, ?_⟩
    · simp [trace, hlock, hlock', hrank]
    · rintro e ⟨k', stage', hlock'', rfl⟩
      obtain ⟨rfl, rfl⟩ : k = k' ∧ stage = stage' := by simpa [hlock] using hlock''
      exact ⟨k, stage, hlock', hwaits.symm⟩
  · intro n hgoal
    obtain ⟨⟨k, stage⟩, hlock⟩ := Option.ne_none_iff_exists'.1 hgoal
    have hcomes : ∃ m, n ≤ m ∧ ev m = (trace next {} ev n).waitsFor stage k := by
      obtain hstep | hthr | ⟨hends, hwork, hm⟩ := waitsFor_cases hlock (hinv n)
      · rw [hstep]; exact hcallers k n
      · rw [hthr]; exact hthread n
      · rw [hends]; exact hheeds n hwork hm
    obtain ⟨m, hm, he⟩ := hcomes
    exact ⟨m, hm, k, stage, hlock, he⟩

/-- One caller that calls `stopWorking` and `startWorking` by turns, and a `workLoop` that ends soon. -/
def inTurn (n : ℕ) : Event Unit :=
  match n % 8 with
  | 0 => .call () .startWorking
  | 4 => .call () .stopWorking
  | 2 => .thread
  | 6 => .workLoopEnds
  | _ => .step ()

/-- The caller has the mutex after its first step, and gives it back. -/
theorem mutex_given_back_inTurn :
    (trace next ({} : State Unit) inTurn 2).lock ≠ none ∧
      ∃ m, 2 ≤ m ∧ (trace next ({} : State Unit) inTurn m).lock = none := by
  have hcomes (r n : ℕ) : ∃ m, n ≤ m ∧ inTurn m = inTurn r :=
    ⟨8 * n + r, by omega, by simp [inTurn]⟩
  exact ⟨by decide, mutex_given_back (hcomes 2) (fun _ => hcomes 1) (fun n _ _ => hcomes 6 n) 2⟩

end Worker
end Common
end EtcMiner
