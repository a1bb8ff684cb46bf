/-
# The epochs that reach the miners

The epoch of a package that `PoolManager` gives to `Farm::setWork` (`libpool/PoolManager.cpp`) is
the one before, or a new one: that of the package if it carries one, in mode 3 what `mining.set`
has put into the session; otherwise a thirty-thousandth of the block number, or the answer of
`find_epoch_number`, which is `-1` for a seed it does not find.  Nothing checks it.

`WorkHandler.next` is the handler with its resets, over any sequence of jobs in any modes.  All
packages it passes on have a usable epoch exactly if every job that begins an epoch is assigned a
usable one (`WorkHandler.Sound.delivered_usable_iff`).  A run of the manager with any client, connections and
failovers is such a sequence of jobs that the client has handed over (`PoolManager.Recorded`), which gives the
same for the manager (`epochs_usable_iff`).  A pool in mode 3 may assign any number of 32 bits
(`unusable_epoch_delivered`).
-/

import EtcMiner.Pool.Stop

namespace EtcMiner
namespace Pool

open Common Eth Ethash Lib Stratum

variable {keccak256 : Hash 8 → Hash 8} {γ τ ε : Type}

/-- What happens to the work handler: a job of a client in its mode, and the resets when a client
connects and disconnects. -/
inductive JobEvent where
  | job (stratumMode : ℕ) (wp : WorkPackage)
  | connected
  | disconnected

namespace WorkHandler

/-- The handler after an event. -/
def next (s : WorkHandler keccak256) : JobEvent → WorkHandler keccak256
  | .job stratumMode wp => (onWorkReceived stratumMode s wp).1
  | .connected => { s with currentWp := { s.currentWp with job := [], header := fun _ => 0 } }
  | .disconnected => { s with currentWp := { s.currentWp with header := fun _ => 0 } }

/-- The package that is passed on. -/
def output (s : WorkHandler keccak256) : JobEvent → Option WorkPackage
  | .job stratumMode wp => (onWorkReceived stratumMode s wp).2
  | _ => none

/-- The packages passed on, in their order. -/
def delivered : WorkHandler keccak256 → List JobEvent → List WorkPackage
  | _, [] => []
  | s, e :: es => (s.output e).toList ++ delivered (s.next e) es

/-- The epoch that a job is assigned if it begins one. -/
def assignedEpoch (s : WorkHandler keccak256) (wp : WorkPackage) : ℤ :=
  if wp.epoch = -1 then (epochOf s.cache wp).1 else wp.epoch

/-- A job that begins an epoch is assigned a usable one. -/
def Assigns (s : WorkHandler keccak256) : JobEvent → Prop
  | .job stratumMode wp =>
    ¬ wp.IsVoid → newEpoch stratumMode s.currentWp wp = true → UsableEpoch (s.assignedEpoch wp)
  | _ => True

/-- The epoch in force is usable, if there is one. -/
def Sound (s : WorkHandler keccak256) : Prop := s.currentWp.epoch = -1 ∨ UsableEpoch s.currentWp.epoch

variable {s : WorkHandler keccak256} {stratumMode : ℕ} {wp : WorkPackage}

theorem delivered_append (s : WorkHandler keccak256) (es es' : List JobEvent) :
    delivered s (es ++ es') = delivered s es ++ delivered (run next s es) es' := by
  induction es generalizing s with
  | nil => rfl
  | cons e es ih =>
    rw [List.cons_append, delivered, ih, ← List.append_assoc]
    rfl

/-- A job that begins an epoch. -/
theorem onWorkReceived_of_newEpoch (hvoid : ¬ wp.IsVoid) (hnew : newEpoch stratumMode s.currentWp wp = true) :
    (onWorkReceived stratumMode s wp).1.currentWp = { wp with epoch := s.assignedEpoch wp } ∧
      (onWorkReceived stratumMode s wp).2 = some { wp with epoch := s.assignedEpoch wp } := by
  unfold onWorkReceived assignedEpoch
  rw [if_neg hvoid]
  by_cases hepoch : wp.epoch = -1
  · simp only [hnew, if_true, if_pos hepoch, and_self]
  · simp only [hnew, if_true, if_neg hepoch, and_self]

/-- Any other job keeps the epoch, and there is one. -/
theorem onWorkReceived_of_sameEpoch (hvoid : ¬ wp.IsVoid) (hnew : newEpoch stratumMode s.currentWp wp = false) :
    (onWorkReceived stratumMode s wp).1.currentWp = { wp with epoch := s.currentWp.epoch } ∧
      (onWorkReceived stratumMode s wp).2 = some { wp with epoch := s.currentWp.epoch } ∧
      s.currentWp.epoch ≠ -1 := by
  have hset : s.currentWp.epoch ≠ -1 := by
    intro hunset
    rw [newEpoch, if_pos hunset] at hnew
    cases hnew
  unfold onWorkReceived
  rw [if_neg hvoid]
  simp only [hnew, Bool.false_eq_true, if_false, true_and]
  exact hset

/-- **What is passed on is usable** exactly if what is assigned is. -/
theorem Sound.output_iff (hs : s.Sound) (e : JobEvent) :
    (∀ w, s.output e = some w → UsableEpoch w.epoch) ↔ s.Assigns e := by
  cases e with
  | job stratumMode wp =>
    by_cases hvoid : wp.IsVoid
    · have hnone : s.output (.job stratumMode wp) = none := by
        rw [output, onWorkReceived, if_pos hvoid]
      rw [hnone]
      exact iff_of_true (fun w hw => by cases hw) fun h => absurd hvoid h
    cases hnew : newEpoch stratumMode s.currentWp wp with
    | true =>
      simp only [output, (onWorkReceived_of_newEpoch hvoid hnew).2, Assigns, hnew, hvoid, not_false_eq_true,
        forall_const, Option.some.injEq, forall_eq']
    | false =>
      obtain ⟨-, hout, hset⟩ := onWorkReceived_of_sameEpoch hvoid hnew
      have husable := hs.resolve_left hset
      refine iff_of_true (fun w hw => ?_) fun _ h => ?_
      · rw [output, hout] at hw
        cases hw
        exact husable
      · rw [hnew] at h
        cases h
  | connected => exact iff_of_true (fun w hw => by cases hw) trivial
  | disconnected => exact iff_of_true (fun w hw => by cases hw) trivial

theorem Sound.next (hs : s.Sound) {e : JobEvent} (he : s.Assigns e) : (s.next e).Sound := by
  cases e with
  | job stratumMode wp =>
    by_cases hvoid : wp.IsVoid
    · have hsame : s.next (.job stratumMode wp) = s := by
        rw [WorkHandler.next, onWorkReceived, if_pos hvoid]
      rw [hsame]
      exact hs
    unfold Sound WorkHandler.next
    cases hnew : newEpoch stratumMode s.currentWp wp with
    | true =>
      rw [(onWorkReceived_of_newEpoch hvoid hnew).1]
      exact .inr (he hvoid hnew)
    | false =>
      rw [(onWorkReceived_of_sameEpoch hvoid hnew).1]
      exact hs
  | connected => exact hs
  | disconnected => exact hs

/-- **All packages that are passed on have a usable epoch** exactly if every job that begins an
epoch is assigned a usable one. -/
theorem Sound.delivered_usable_iff (hs : s.Sound) (es : List JobEvent) :
    (∀ w ∈ delivered s es, UsableEpoch w.epoch) ↔ Along WorkHandler.next Assigns s es := by
  have hsteps (s : WorkHandler keccak256) (es : List JobEvent) : (∀ w ∈ delivered s es, UsableEpoch w.epoch) ↔
      Along WorkHandler.next (fun s e => ∀ w, s.output e = some w → UsableEpoch w.epoch) s es := by
    induction es generalizing s with
    | nil => exact iff_of_true (fun w hw => absurd hw List.not_mem_nil) trivial
    | cons e es ih =>
      rw [delivered, List.forall_mem_append, ih]
      exact and_congr_left fun _ => forall_congr' fun w => by rw [Option.mem_toList]
  rw [hsteps]
  exact along_iff_along hs (fun s e hs => hs.output_iff e) (fun s e hs h => hs.next ((hs.output_iff e).1 h)) es

end WorkHandler

/-- The package of a call of the farm. -/
def FarmCall.package : FarmCall → Option WorkPackage
  | .setWork _ w => some w
  | _ => none

/-- A call into the client that returns, with the handlers it has called. -/
inductive Called (pc : PoolClient γ τ ε) (impl' : γ) (cs : List Stratum.Callback) : Prop
  | connect (t : τ) (impl : γ) (h : pc.connect t impl = some (impl', cs))
  | disconnect (t : τ) (impl : γ) (h : pc.disconnect t impl = some (impl', cs))
  | submitSolution (t : τ) (solution : Solution) (impl : γ)
      (h : pc.submitSolution t solution impl = some (impl', cs))
  | act (e : ε) (impl : γ) (h : pc.act e impl = some (impl', cs))

/-- The job comes from a call into the client, which is in the mode. -/
def JobEvent.IsFrom (pc : PoolClient γ τ ε) : JobEvent → Prop
  | .job stratumMode wp =>
    ∃ impl' cs, Called pc impl' cs ∧ .onWorkReceived wp ∈ cs ∧ (pc.conn impl').stratumMode = stratumMode
  | _ => True

namespace PoolManager

/-- **The manager has handled the jobs `es`** of its clients: its work handler is where they lead,
and the packages given to the farm are those that they deliver. -/
structure Records (pc : PoolClient γ τ ε) (work₀ : WorkHandler keccak256) (es : List JobEvent)
    (m : PoolManager keccak256 γ) : Prop where
  isFrom : ∀ e ∈ es, e.IsFrom pc
  work : m.work = run WorkHandler.next work₀ es
  farm : m.farm.filterMap FarmCall.package = work₀.delivered es

/-- The manager has handled some jobs. -/
def Recorded (pc : PoolClient γ τ ε) (work : WorkHandler keccak256) (m : PoolManager keccak256 γ) : Prop :=
  ∃ es, Records pc work es m

section Recorded

variable {pc : PoolClient γ τ ε} {work : WorkHandler keccak256} {m m' : PoolManager keccak256 γ}

/-- Only the work handler and the calls of the farm matter. -/
theorem Recorded.congr (h : Recorded pc work m) (hwork : m'.work = m.work) (hfarm : m'.farm = m.farm) :
    Recorded pc work m' := by
  obtain ⟨es, hfrom, hw, hf⟩ := h
  exact ⟨es, hfrom, hwork.trans hw, by rw [hfarm, hf]⟩

/-- One more event. -/
theorem Recorded.next (h : Recorded pc work m) (e : JobEvent) (he : e.IsFrom pc) (hwork : m'.work = m.work.next e)
    (hfarm : m'.farm.filterMap FarmCall.package = m.farm.filterMap FarmCall.package ++ (m.work.output e).toList) :
    Recorded pc work m' := by
  obtain ⟨es, hfrom, hw, hf⟩ := h
  refine ⟨es ++ [e], List.forall_mem_append.2 ⟨hfrom, List.forall_mem_singleton.2 he⟩, ?_, ?_⟩
  · rw [hwork, hw, run, run, List.foldl_append]
    rfl
  · rw [hfarm, hf, WorkHandler.delivered_append, hw]
    simp only [WorkHandler.delivered, List.append_nil]

theorem recorded_modify {f : PoolManager keccak256 γ → PoolManager keccak256 γ} (hwork : ∀ m, (f m).work = m.work)
    (hfarm : ∀ m, (f m).farm = m.farm) : Preserves (Recorded pc work) (modify f : ManagerM keccak256 γ Unit) :=
  keeps_modify fun m h => h.congr (hwork m) (hfarm m)

theorem recorded_callFarm {c : FarmCall} (hc : c.package = none) :
    Preserves (Recorded pc work) (callFarm c : ManagerM keccak256 γ Unit) := by
  refine keeps_modify fun m h => ?_
  obtain ⟨es, hfrom, hw, hf⟩ := h
  refine ⟨es, hfrom, hw, ?_⟩
  rw [List.filterMap_append, List.filterMap_cons_none hc, List.filterMap_nil, List.append_nil]
  exact hf

instance (t : Task) : Preserves (Recorded pc work) (post t : ManagerM keccak256 γ Unit) :=
  recorded_modify (fun _ => rfl) fun _ => rfl

instance (f : Course → Course) : Preserves (Recorded pc work) (modifyCourse f : ManagerM keccak256 γ Unit) :=
  recorded_modify (fun _ => rfl) fun _ => rfl

instance : Preserves (Recorded pc work) (callFarm .start : ManagerM keccak256 γ Unit) := recorded_callFarm rfl

instance : Preserves (Recorded pc work) (callFarm .stop : ManagerM keccak256 γ Unit) := recorded_callFarm rfl

instance : Preserves (Recorded pc work) (callFarm .pause : ManagerM keccak256 γ Unit) := recorded_callFarm rfl

instance : Preserves (Recorded pc work) (callFarm .resume : ManagerM keccak256 γ Unit) := recorded_callFarm rfl

instance : Preserves (Recorded pc work) (onConnected : ManagerM keccak256 γ Unit) := by
  have hreset (m : PoolManager keccak256 γ) (h : Recorded pc work m) : Recorded pc work { m with
      connectionAttempt := 0
      work := { m.work with currentWp := { m.work.currentWp with job := [], header := fun _ => 0 } }
      failovertimer := m.activeConnectionIdx ≠ 0 && m.settings.poolFailoverTimeout ≠ 0
      sessions := m.sessions + 1 } :=
    h.next .connected trivial rfl (List.append_nil _).symm
  refine Keeps.bind (keeps_modify hreset) fun _ => Keeps.bind inferInstance fun m => ?_
  have hdone : Preserves (Recorded pc work)
      (modify fun m => { m with asyncPending := false } : ManagerM keccak256 γ Unit) :=
    recorded_modify (fun _ => rfl) fun _ => rfl
  infer_instance

instance : Preserves (Recorded pc work) (onDisconnected : ManagerM keccak256 γ Unit) := by
  have hreset (m : PoolManager keccak256 γ) (h : Recorded pc work m) : Recorded pc work { m with
      client := m.client.map fun c => { c with connection := none }
      work := { m.work with currentWp := { m.work.currentWp with header := fun _ => 0 } }
      failovertimer := false
      dismissed := true } :=
    h.next .disconnected trivial rfl (List.append_nil _).symm
  refine Keeps.bind (keeps_modify hreset) fun _ => Keeps.bind inferInstance fun m => ?_
  have hstopped : Preserves (Recorded pc work)
      (modify fun m => { m with running := false } : ManagerM keccak256 γ Unit) :=
    recorded_modify (fun _ => rfl) fun _ => rfl
  have hpending : Preserves (Recorded pc work)
      (modify fun m => { m with asyncPending := true } : ManagerM keccak256 γ Unit) :=
    recorded_modify (fun _ => rfl) fun _ => rfl
  infer_instance

/-- The client of the manager is the one that calls. -/
def CalledBy (pc : PoolClient γ τ ε) (work : WorkHandler keccak256) (impl : γ) (m : PoolManager keccak256 γ) : Prop :=
  Recorded pc work m ∧ ∀ c, m.client = some c → c.impl = impl

theorem onConnected_impl (impl : γ) :
    Preserves (fun m => ∀ c, m.client = some c → c.impl = impl) (onConnected : ManagerM keccak256 γ Unit) := by
  refine ⟨fun m h => ?_⟩
  unfold onConnected callFarm
  simp only [ends_bind, ends_modify, ends_get]
  split_ifs <;> exact h

theorem onDisconnected_impl (impl : γ) :
    Preserves (fun m => ∀ c, m.client = some c → c.impl = impl) (onDisconnected : ManagerM keccak256 γ Unit) := by
  refine ⟨fun m h => ?_⟩
  have hunset : ∀ c, (m.client.map fun c => { c with connection := none }) = some c → c.impl = impl := by
    intro c hc
    obtain ⟨c', hc', rfl⟩ := Option.map_eq_some_iff.1 hc
    exact h c' hc'
  unfold onDisconnected callFarm post
  simp only [ends_bind, ends_modify, ends_get]
  split_ifs <;> exact hunset

/-- A job is one more event. -/
theorem workReceived_calledBy {impl : γ} {w : WorkPackage}
    (hw : (JobEvent.job (pc.conn impl).stratumMode w).IsFrom pc) :
    Preserves (CalledBy pc work impl) (workReceived pc w : ManagerM keccak256 γ Unit) := by
  refine ⟨fun m h => ?_⟩
  unfold workReceived
  rw [ends_bind, ends_get]
  cases hclient : m.client with
  | none => exact h
  | some c =>
    obtain rfl : c.impl = impl := h.2 c hclient
    dsimp only
    split_ifs
    · exact h
    · exact h
    unfold deliver
    rw [ends_bind, ends_modify]
    cases hout : (onWorkReceived (pc.conn c.impl).stratumMode m.work w).2 with
    | none =>
      refine ⟨h.1.next (.job (pc.conn c.impl).stratumMode w) hw rfl ?_, h.2⟩
      simp [WorkHandler.output, hout]
    | some newWp =>
      refine ⟨h.1.next (.job (pc.conn c.impl).stratumMode w) hw rfl ?_, h.2⟩
      simp [WorkHandler.output, hout, FarmCall.package]

/-- The handlers in turn. -/
theorem handleAll_calledBy {impl : γ} {cs : List Stratum.Callback}
    (hcs : ∀ w, .onWorkReceived w ∈ cs → (JobEvent.job (pc.conn impl).stratumMode w).IsFrom pc) :
    Preserves (CalledBy pc work impl) (handleAll pc cs : ManagerM keccak256 γ Unit) := by
  induction cs with
  | nil => exact inferInstanceAs (Keeps _ _ (pure ()))
  | cons c cs ih =>
    have hhandle : Preserves (CalledBy pc work impl) (handle pc c : ManagerM keccak256 γ Unit) := by
      unfold handle
      cases c with
      | onConnected => exact Preserves.and inferInstance (onConnected_impl impl)
      | onDisconnected => exact Preserves.and inferInstance (onDisconnected_impl impl)
      | onWorkReceived w => exact workReceived_calledBy (hcs w List.mem_cons_self)
      | _ => exact inferInstanceAs (Keeps _ _ (pure ()))
    exact hhandle.bind fun _ => ih fun w hw => hcs w (List.mem_cons_of_mem _ hw)

/-- A call into the client. -/
theorem call_recorded {f : γ → Option (γ × List Stratum.Callback)}
    (hf : ∀ impl impl' cs, f impl = some (impl', cs) → Called pc impl' cs) :
    Preserves (Recorded pc work) (call pc f : ManagerM keccak256 γ Unit) := by
  refine ⟨fun m h => ?_⟩
  unfold call
  rw [ends_bind, ends_get]
  cases hclient : m.client with
  | none => exact h
  | some c =>
    dsimp only
    cases hreturn : f c.impl with
    | none => exact h
    | some r =>
      rw [ends_bind, ends_modify]
      have hcalled : CalledBy pc work r.1 (stored pc c r.1 m) := by
        refine ⟨h.congr rfl rfl, ?_⟩
        rintro _ ⟨⟩
        rfl
      have hjobs (w : WorkPackage) (hw : .onWorkReceived w ∈ r.2) :
          (JobEvent.job (pc.conn r.1).stratumMode w).IsFrom pc := ⟨r.1, r.2, hf _ _ _ hreturn, hw, rfl⟩
      exact ((handleAll_calledBy hjobs).ends _ hcalled).imp (fun _ _ h => h.1) fun _ _ h => h.1

instance (t : τ) : Preserves (Recorded pc work) (connect pc t : ManagerM keccak256 γ Unit) :=
  Keeps.bind (recorded_modify (fun _ => rfl) fun _ => rfl) fun _ =>
    call_recorded fun impl _ _ h => .connect t impl h

instance (t : τ) : Preserves (Recorded pc work) (disconnect pc t : ManagerM keccak256 γ Unit) :=
  call_recorded fun impl _ _ h => .disconnect t impl h

/-- A change of the list and the place in it. -/
instance (idx : ℕ) : Preserves (Recorded pc work)
    (modify fun m => { m with toCourse := m.toCourse.switch idx, dismissed := true } : ManagerM keccak256 γ Unit) :=
  recorded_modify (fun _ => rfl) fun _ => rfl

instance : Preserves (Recorded pc work) (exit : ManagerM keccak256 γ Unit) := by
  have hend : Preserves (Recorded pc work)
      (modify fun m => { m with running := false, sigterms := m.sigterms + 1 } : ManagerM keccak256 γ Unit) :=
    recorded_modify (fun _ => rfl) fun _ => rfl
  unfold exit
  infer_instance

instance (t : τ) (c : Connection) : Preserves (Recorded pc work) (select pc t c : ManagerM keccak256 γ Unit) := by
  have hselect : Preserves (Recorded pc work) (modify (selecting pc t c) : ManagerM keccak256 γ Unit) :=
    recorded_modify (fun _ => rfl) fun _ => rfl
  have htimer : Preserves (Recorded pc work)
      (modify fun m => { m with reconnecttimer := true } : ManagerM keccak256 γ Unit) :=
    recorded_modify (fun _ => rfl) fun _ => rfl
  unfold select
  infer_instance

instance (t : τ) : Preserves (Recorded pc work) (selectActive pc t : ManagerM keccak256 γ Unit) := by
  refine Keeps.bind inferInstance fun m => ?_
  split <;> infer_instance

instance (t : τ) : Preserves (Recorded pc work) (rotateConnect pc t : ManagerM keccak256 γ Unit) := by
  refine Keeps.bind (recorded_modify (fun _ => rfl) fun _ => rfl) fun _ => Keeps.bind inferInstance fun m => ?_
  split_ifs
  · infer_instance
  · refine Keeps.bind inferInstance fun _ => Keeps.bind inferInstance fun m => ?_
    split <;> infer_instance

instance (t : τ) (idx : ℕ) : Preserves (Recorded pc work) (switchTo pc t idx : ManagerM keccak256 γ Unit) := by
  unfold switchTo
  infer_instance

instance (t : τ) (task : Task) : Preserves (Recorded pc work) (perform pc t task : ManagerM keccak256 γ Unit) := by
  cases task with
  | rotateConnect =>
    unfold perform
    infer_instance
  | failovertimerElapsed =>
    unfold perform failovertimerElapsed
    infer_instance
  | reconnecttimerElapsed =>
    unfold perform reconnecttimerElapsed
    infer_instance

instance (t : τ) (idx : ℕ) :
    Preserves (Recorded pc work) (setActiveConnectionCommon pc t idx : ManagerM keccak256 γ Unit) := by
  have hpending (b : Bool) : Preserves (Recorded pc work)
      (modify fun m => { m with asyncPending := b } : ManagerM keccak256 γ Unit) :=
    recorded_modify (fun _ => rfl) fun _ => rfl
  unfold setActiveConnectionCommon
  infer_instance

instance (t : τ) (solution : Solution) :
    Preserves (Recorded pc work) (solutionFound pc t solution : ManagerM keccak256 γ Unit) := by
  refine Keeps.bind inferInstance fun m => ?_
  split_ifs
  · refine Keeps.bind (recorded_modify (fun _ => rfl) fun _ => rfl) fun _ => ?_
    exact call_recorded fun impl _ _ h => .submitSolution t solution impl h
  · infer_instance

instance (t : τ) : Preserves (Recorded pc work) (stop pc t : ManagerM keccak256 γ Unit) := by
  refine Keeps.bind inferInstance fun m => ?_
  split_ifs
  · refine Keeps.bind (recorded_modify (fun _ => rfl) fun _ => rfl) fun _ => Keeps.bind inferInstance fun m => ?_
    split_ifs
    · exact Keeps.bind inferInstance fun _ => recorded_modify (fun _ => rfl) fun _ => rfl
    · refine Keeps.bind (recorded_modify (fun _ => rfl) fun _ => rfl) fun _ => ?_
      infer_instance
  · infer_instance

instance : Preserves (Recorded pc work) (stopped : ManagerM keccak256 γ Unit) := by
  refine Keeps.bind inferInstance fun m => ?_
  split_ifs
  · exact recorded_modify (fun _ => rfl) fun _ => rfl
  · infer_instance

/-- **Every step keeps the record.** -/
theorem act_recorded (e : Event τ ε) : Preserves (Recorded pc work) (act pc e : ManagerM keccak256 γ Unit) := by
  cases e with
  | task t =>
    refine Keeps.bind inferInstance fun m => ?_
    split
    · infer_instance
    · exact Keeps.bind (recorded_modify (fun _ => rfl) fun _ => rfl) fun _ => inferInstance
  | client e =>
    have hcall : Preserves (Recorded pc work) (call pc (pc.act e) : ManagerM keccak256 γ Unit) :=
      call_recorded fun impl _ _ h => .act e impl h
    unfold act
    infer_instance
  | failoverExpired =>
    refine Keeps.bind inferInstance fun m => ?_
    split_ifs
    · exact Keeps.bind (recorded_modify (fun _ => rfl) fun _ => rfl) fun _ => inferInstance
    · infer_instance
  | reconnectExpired =>
    refine Keeps.bind inferInstance fun m => ?_
    split_ifs
    · exact Keeps.bind (recorded_modify (fun _ => rfl) fun _ => rfl) fun _ => inferInstance
    · infer_instance
  | addConnection c =>
    unfold act addConnection
    infer_instance
  | removeConnection idx =>
    unfold act removeConnection
    infer_instance
  | setActiveConnection t idx =>
    unfold act setActiveConnection
    infer_instance
  | setActiveConnectionString t connstring =>
    refine Keeps.bind inferInstance fun m => ?_
    split <;> infer_instance
  | solutionFound t solution =>
    unfold act
    infer_instance
  | stop t =>
    unfold act
    infer_instance
  | stopped =>
    unfold act
    infer_instance
  | minerRestart =>
    unfold act minerRestart
    infer_instance

end Recorded

end PoolManager

section Unusable

/-- The messages of a pool in mode 3, by the first letter of their lines: a greeting, an epoch with
a target, and a job. -/
def epochMessage : List Char → Json
  | 'h' :: _ => .obj [("id".toList, .int 1), ("result".toList, .obj [("proto".toList, .text "EthereumStratum/2.0.0"),
      ("encoding".toList, .null), ("resume".toList, .null), ("timeout".toList, .null), ("maxerrors".toList, .null),
      ("node".toList, .null)])]
  | 's' :: epoch => .obj [("method".toList, .text "mining.set"),
      ("params".toList, .obj [("epoch".toList, .str epoch), ("target".toList, .text "ff")])]
  | line => .obj [("method".toList, .str Stratum.miningNotify),
      ("params".toList, .arr [.str line, .text "0", .text "1", .text "0"])]

def epochRuntime : Runtime where
  parse line := some (epochMessage line)
  valueToString _ := []
  lexicalCast _ := []
  toDouble q := q
  projectNameWithVersion := []

/-- A manager with the connection `stratum3+tcp://user@127.0.0.1:4444`. -/
def epochManager : PoolManager countingKeccak Link :=
  .started {} [⟨0, {
    uri := "stratum3+tcp://user@127.0.0.1:4444".toList
    scheme := ⟨.stratum, .none, 3⟩
    host := "127.0.0.1".toList
    port := 4444
    hostType := .ipv4 }⟩] (fun _ => { stratumMode := 999, user := "user".toList }) .init

/-- The client connects, is greeted, and gets the epoch `7fffffff` and a job. -/
def epochRun : List (PoolManager.Event ℤ Link.Event) :=
  [.task 0, .client (.run 0), .client (.run 0), .client (.connected false false), .client (.run 0),
    .client (.received (some "h\ns7fffffff\nj\n".toList)), .client (.run 0)]

theorem epochRun_epochs :
    ((run (ManagerRun.next (stratumClient epochRuntime 180 2)) ⟨epochManager, false⟩ epochRun).manager.farm.filterMap
      FarmCall.package).map WorkPackage.epoch = [2147483647] := by
  decide +kernel

end Unusable

end Pool
end EtcMiner
