/-
# Where the CUDA miner searches

`CUDAMiner::search` starts every search at the start nonce of its package and adds a batch
for every stream it passes.  A `Rig` is the miner together with the deals its packages come
from: `package` is the deal of the search under way and `passed` the batches between its
start nonce and `start_nonce`.  Neither is a variable of the code.

Along every run what the miner reports lies `passed` batches, less one round of the
streams, after the start nonce of its deal (`Rig.Inv.submitted_eq`), and the pool can
rebuild the nonces exactly when these stay within the extranonce of the job
(`rebuilt_iff_keeps`).
-/

import EtcMiner.Cuda.Attribution
import EtcMiner.Pool.Deal

namespace EtcMiner
namespace CUDAMiner

open Common Eth Lib Stratum Pool

variable {cfg : Config}

/-- The call that starts `Miner::setWork`. -/
def Event.isSetWork : Event cfg → Bool
  | .call (.setWorkBegin _) => true
  | _ => false

/-- The call to the miner that a step makes. -/
def callOf (s : State cfg) : Event cfg → Option MinerCall
  | .call c => some c
  | .initEpochFailed what =>
    match s.phase with
    | .initializing _ => some (.pause what)
    | _ => none
  | _ => none

theorem callOf_ne_setWorkBegin {s : State cfg} {e : Event cfg} (h : e.isSetWork = false)
    (w : WorkPackage) : callOf s e ≠ some (.setWorkBegin w) := by
  cases e with
  | call c =>
    rintro ⟨⟩
    exact (nomatch h)
  | initEpochFailed what => cases hphase : s.phase <;> simp [callOf, hphase]
  | _ => nofun

/-- The step starts a search. -/
def starts (s : State cfg) (e : Event cfg) : Bool :=
  match s.phase, (next s e).phase with
  | .running, .searching _ => true
  | _, _ => false

/-- The step passes a stream. -/
def passes (s : State cfg) : Event cfg → Bool
  | .stream _ _ =>
    match s.phase, s.device with
    | .searching q, some _ => decide (q.streamIdx < cfg.cuStreamSize)
    | _, _ => false
  | _ => false

/-- The results a step reports. -/
def results (s : State cfg) : Event cfg → List (BitVec 32)
  | .stream gids _ =>
    match s.phase, s.device with
    | .searching q, some _ =>
      if q.streamIdx < cfg.cuStreamSize ∧ q.streamsBsy q.streamIdx then gids.take maxSearchResults
      else []
    | _, _ => []
  | _ => []

/-- A search goes on: it has the package and the batch of `q`, and `start_nonce` is a batch
further if a stream is passed. -/
structure Search.GoesOn (q : Search cfg) (pass : Bool) (q' : Search cfg) : Prop where
  package : q'.package = q.package
  multiple : q'.multiple = q.multiple
  startNonce : q'.startNonce =
    q.startNonce + if pass then q.multiple.batchBlocks.setWidth 64 else 0

/-- **What a step can do.**  It leaves the state alone when the event does not fit the phase,
when a read waits for `setWork`, when the package read is void and when a mutex that is left
locked is waited for. -/
inductive Move (s : State cfg) : Event cfg → State cfg × Output → Prop
  | stay {e : Event cfg} (hcall : callOf s e = none) (hpass : passes s e = false) : Move s e (s, {})
  | call (c : MinerCall) : Move s (.call c) ({ s with miner := s.miner.call c }, {})
  | kick : Move s .kick ({ s with done := true }, {})
  | start : Move s .start ({ s with phase := .running, last := {} }, {})
  | stop : Move s .stop ({ s with phase := .stopped, device := none }, {})
  | initEpoch {w : WorkPackage} {multiple : Option (Multiple cfg)} {failsAt : Option ℕ} :
      Move s (.iterate multiple failsAt)
        ({ s with phase := .initializing w, device := none, currentTarget := 0 }, {})
  | noDevice {multiple : Option (Multiple cfg)} {failsAt : Option ℕ} :
      Move s (.iterate multiple failsAt) ({ s with phase := .stopped, doneMutexHeld := true }, {})
  | prime {w : WorkPackage} {d : Device} {m : Multiple cfg} {multiple : Option (Multiple cfg)}
      {failsAt : Option ℕ} (hphase : s.phase = .running) (hread : s.miner.readWork = some w) :
      Move s (.iterate multiple failsAt) (prime s w d m failsAt)
  | initEpochDone {w : WorkPackage} :
      Move s .initEpochDone
        ({ s with phase := .running, device := some ⟨w.epoch, fun _ => 0, 0⟩, last := w }, {})
  | initEpochFailed {w : WorkPackage} {what : MinerPause} (hphase : s.phase = .initializing w) :
      Move s (.initEpochFailed what)
        ({ s with phase := .stopped, miner := s.miner.call (.pause what) }, {})
  | round {q : Search cfg} (hphase : s.phase = .searching q) :
      Move s .round
        ({ s with phase := .searching { q with streamIdx := 0 }, done := s.done || s.miner.paused }, {})
  | searched : Move s .round ({ s with phase := .running }, {})
  | stream {q : Search cfg} {d : Device} {gids : List (BitVec 32)} {shouldStop : Bool}
      (hphase : s.phase = .searching q) (hdevice : s.device = some d)
      (hidx : q.streamIdx < cfg.cuStreamSize) :
      Move s (.stream gids shouldStop) (streamPass s q d gids shouldStop)

section Step

variable {s : State cfg}

theorem Search.GoesOn.refl (q : Search cfg) : q.GoesOn false q :=
  ⟨rfl, rfl, (BitVec.add_zero _).symm⟩

theorem streamPass_goesOn {q : Search cfg} {d : Device} (gids : List (BitVec 32))
    (shouldStop : Bool) :
    ∃ q', (streamPass s q d gids shouldStop).1.phase = .searching q' ∧ q.GoesOn true q' := by
  unfold streamPass
  by_cases hbusy : q.streamsBsy q.streamIdx = true
  · rw [if_pos hbusy]
    cases s.done with
    | true => exact ⟨_, rfl, rfl, rfl, rfl⟩
    | false => exact ⟨_, rfl, rfl, rfl, rfl⟩
  · rw [if_neg hbusy]
    exact ⟨_, rfl, rfl, rfl, rfl⟩

theorem iterate_move {w : WorkPackage} (hphase : s.phase = .running)
    (hread : s.miner.readWork = some w) (multiple : Option (Multiple cfg)) (failsAt : Option ℕ) :
    Move s (.iterate multiple failsAt) (iterate s w multiple failsAt) := by
  unfold iterate
  split
  · exact .stay rfl rfl
  split
  · exact .initEpoch
  split
  · exact .stay rfl rfl
  split
  · exact .noDevice
  · exact .prime hphase hread

theorem step_move (s : State cfg) (e : Event cfg) : Move s e (step s e) := by
  cases e with
  | call c => exact .call c
  | kick =>
    unfold step
    by_cases hheld : s.doneMutexHeld = true
    · rw [if_pos hheld]
      exact .stay rfl rfl
    · rw [if_neg hheld]
      exact .kick
  | start =>
    unfold step
    cases s.phase with
    | stopped => exact .start
    | _ => exact .stay rfl rfl
  | stop => exact .stop
  | iterate multiple failsAt =>
    unfold step
    cases hphase : s.phase with
    | running =>
      cases hread : s.miner.readWork with
      | none => exact .stay rfl rfl
      | some w => exact iterate_move hphase hread multiple failsAt
    | _ => exact .stay rfl rfl
  | initEpochDone =>
    unfold step
    cases s.phase with
    | initializing w => exact .initEpochDone
    | _ => exact .stay rfl rfl
  | initEpochFailed what =>
    unfold step
    cases hphase : s.phase with
    | initializing w => exact .initEpochFailed hphase
    | _ => exact .stay (by simp only [callOf, hphase]) rfl
  | round =>
    unfold step
    cases hphase : s.phase with
    | searching q =>
      dsimp only
      split_ifs
      · exact .stay rfl rfl
      · exact .round hphase
      · exact .searched
    | _ => exact .stay rfl rfl
  | stream gids shouldStop =>
    unfold step
    cases hphase : s.phase with
    | searching q =>
      cases hdevice : s.device with
      | none => exact .stay rfl (by simp only [passes, hphase, hdevice])
      | some d =>
        dsimp only
        split_ifs with hidx
        · exact .stream hphase hdevice hidx
        · exact .stay rfl (by simp only [passes, hphase, hdevice, hidx, decide_false])
    | _ => exact .stay rfl (by simp only [passes, hphase])

/-- A search begins with the package of the miner. -/
theorem starts_primed {e : Event cfg} (hrun : s.phase = .running) {q : Search cfg}
    (hq : (next s e).phase = .searching q) :
    ∃ w d m, s.miner.readWork = some w ∧ q = primed w d m := by
  have hmove := step_move s e
  unfold next at hq
  generalize step s e = r at hmove hq
  cases hmove with
  | stay | call | kick => exact nomatch hrun.symm.trans hq
  | @prime w d m multiple failsAt _ hread =>
    cases failsAt with
    | some n => cases hq
    | none => exact ⟨w, _, _, hread, (Phase.searching.inj hq).symm⟩
  | round hphase => exact nomatch hrun.symm.trans hphase
  | stream hphase => exact nomatch hrun.symm.trans hphase
  | _ => cases hq

/-- A search under way goes on, until it ends. -/
theorem goesOn_next {e : Event cfg} {q q' : Search cfg} (hq : s.phase = .searching q)
    (hq' : (next s e).phase = .searching q') : q.GoesOn (passes s e) q' := by
  have hmove := step_move s e
  unfold next at hq'
  generalize step s e = r at hmove hq'
  have hsame (h : r.1.phase = s.phase) (hpass : passes s e = false) :
      q.GoesOn (passes s e) q' := by
    rw [h, hq] at hq'
    cases hq'
    rw [hpass]
    exact .refl q
  cases hmove with
  | stay _ hpass => exact hsame rfl hpass
  | call | kick => exact hsame rfl rfl
  | prime hphase => exact nomatch hq.symm.trans hphase
  | round hphase =>
    rw [hq] at hphase
    cases hphase
    cases hq'
    exact ⟨rfl, rfl, (BitVec.add_zero _).symm⟩
  | @stream _ d gids shouldStop hphase hdevice hidx =>
    rw [hq] at hphase
    cases hphase
    obtain ⟨q'', hafter, hgoesOn⟩ := streamPass_goesOn (s := s) (q := q) (d := d) gids shouldStop
    rw [hafter] at hq'
    cases hq'
    simpa only [passes, hq, hdevice, hidx, decide_true] using hgoesOn
  | _ => cases hq'

/-- No search begins but from the work loop. -/
theorem phase_of_next_searching {e : Event cfg} {q' : Search cfg}
    (hq' : (next s e).phase = .searching q') :
    s.phase = .running ∨ ∃ q, s.phase = .searching q := by
  have hmove := step_move s e
  unfold next at hq'
  generalize step s e = r at hmove hq'
  cases hmove with
  | stay | call | kick => exact .inr ⟨q', hq'⟩
  | prime hphase => exact .inl hphase
  | round hphase => exact .inr ⟨_, hphase⟩
  | stream hphase => exact .inr ⟨_, hphase⟩
  | _ => cases hq'

/-- **What a step does to the packages of the miner.** -/
theorem miner_next (e : Event cfg) :
    (next s e).miner = (callOf s e).elim s.miner s.miner.call := by
  have hmove := step_move s e
  unfold next
  generalize step s e = r at hmove ⊢
  cases hmove with
  | stay hcall => rw [hcall, Option.elim_none]
  | @prime w d m multiple failsAt => cases failsAt <;> rfl
  | initEpochFailed hphase => simp only [callOf, hphase, Option.elim_some]
  | stream =>
    unfold streamPass
    split_ifs <;> rfl
  | _ => rfl

theorem results_eq_nil {e : Event cfg} (h : passes s e = false) : results s e = [] := by
  cases e with
  | stream gids shouldStop =>
    cases hphase : s.phase with
    | searching q =>
      cases hdevice : s.device with
      | none => simp only [results, hphase, hdevice]
      | some d =>
        simp only [passes, hphase, hdevice, decide_eq_false_iff_not] at h
        simp only [results, hphase, hdevice, h, false_and, if_false]
    | _ => simp only [results, hphase]
  | _ => rfl

/-- **What a step reports.** -/
theorem submitted_eq (e : Event cfg) :
    (step s e).2.submitted = match s.phase with
      | .searching q => (results s e).map fun gid =>
        ⟨q.startNonce - q.multiple.streamBlocks.setWidth 64 + gid.setWidth 64, fun _ => 0,
          q.package, cfg.index⟩
      | _ => [] := by
  have hmove := step_move s e
  generalize step s e = r at hmove ⊢
  have hquiet (h : r.2.submitted = []) (hresults : results s e = []) :
      r.2.submitted = match s.phase with
        | .searching q => (results s e).map fun gid =>
          ⟨q.startNonce - q.multiple.streamBlocks.setWidth 64 + gid.setWidth 64, fun _ => 0,
            q.package, cfg.index⟩
        | _ => [] := by
    rw [h, hresults]
    cases s.phase <;> rfl
  cases hmove with
  | stay _ hpass => exact hquiet rfl (results_eq_nil hpass)
  | @prime w d m multiple failsAt => exact hquiet (by cases failsAt <;> rfl) rfl
  | stream hphase hdevice hidx =>
    simp only [results, hphase, hdevice, hidx, true_and, streamPass]
    split_ifs <;> rfl
  | _ => exact hquiet rfl rfl

end Step

/-- The miner with the deals of its packages. -/
structure Rig (cfg : Config) where
  state : State cfg
  hand : Hand := {}
  package : Option Deal := none
  passed : ℕ := 0

/-- The farm deals a package out, or the miner takes a step. -/
inductive RigEvent (cfg : Config) where
  | setWork (D : Deal)
  | other (e : Event cfg) (h : e.isSetWork = false)

section Rig

variable (p : Place)

/-- The step of the miner. -/
def RigEvent.toEvent : RigEvent cfg → Event cfg
  | .setWork D => .call (.setWorkBegin (p.dealt D))
  | .other e _ => e

/-- The deals in the hand after a step. -/
def Rig.nextHand (r : Rig cfg) : RigEvent cfg → Hand
  | .setWork D => r.hand.setWorkBegin r.state.miner D
  | .other e _ => (callOf r.state e).elim r.hand (r.hand.call r.state.miner)

/-- The rig after a step. -/
def Rig.next (r : Rig cfg) (e : RigEvent cfg) : Rig cfg where
  state := CUDAMiner.next r.state (e.toEvent p)
  hand := r.nextHand e
  package := if starts r.state (e.toEvent p) then r.hand.work else r.package
  passed :=
    if starts r.state (e.toEvent p) then cfg.cuStreamSize
    else if passes r.state (e.toEvent p) then r.passed + 1
    else r.passed

/-- The search `q` is where the rig says. -/
structure Rig.At (r : Rig cfg) (q : Search cfg) : Prop where
  package : ∀ D, r.package = some D → q.package.startNonce = (p.dealt D).startNonce ∧
    q.package.exSizeBytes = D.newWp.exSizeBytes
  startNonce : q.startNonce = batchNonce q.package q.multiple r.passed
  passed : cfg.cuStreamSize ≤ r.passed

/-- The rig is right about the position of the search. -/
structure Rig.Inv (r : Rig cfg) : Prop where
  holds : Holds p r.state.miner r.hand
  search : ∀ q, r.state.phase = .searching q → r.At p q

variable {p} {r : Rig cfg}

theorem Rig.Inv.nextHand (hinv : r.Inv p) (e : RigEvent cfg) :
    Holds p (CUDAMiner.next r.state (e.toEvent p)).miner (r.nextHand e) := by
  cases e with
  | setWork D => exact hinv.holds.setWorkBegin D
  | other e h =>
    rw [miner_next]
    exact hinv.holds.callOf (callOf_ne_setWorkBegin h)

/-- **A step keeps the rig right.** -/
theorem Rig.Inv.next (hinv : r.Inv p) (e : RigEvent cfg) : (r.next p e).Inv p := by
  refine ⟨hinv.nextHand e, fun q' hq' => ?_⟩
  change (CUDAMiner.next r.state (e.toEvent p)).phase = _ at hq'
  rcases phase_of_next_searching hq' with hrun | ⟨q, hq⟩
  · obtain ⟨w, d, m, hread, rfl⟩ := starts_primed hrun hq'
    have hstarts : starts r.state (e.toEvent p) = true := by
      unfold starts
      rw [hrun, hq']
    obtain rfl := Miner.work_eq_of_readWork hread
    refine ⟨?_, ?_, ?_⟩ <;> simp only [Rig.next, hstarts, if_true]
    · exact hinv.holds.work
    · rfl
    · exact le_rfl
  · have hstarts : starts r.state (e.toEvent p) = false := by
      unfold starts
      rw [hq]
    obtain ⟨hpackage, hmultiple, hstart⟩ := goesOn_next hq hq'
    obtain ⟨hdeal, hposition, hpassed⟩ := hinv.search q hq
    refine ⟨?_, ?_, ?_⟩ <;> simp only [Rig.next, hstarts, Bool.false_eq_true, if_false]
    · rwa [hpackage]
    · rw [hstart, hpackage, hmultiple, hposition]
      split_ifs
      · rw [batchNonce_succ]
      · exact BitVec.add_zero _
    · split_ifs <;> omega

end Rig

section Rebuilt

variable (p : Place)

/-- **Where the solutions are.**  What the miner reports lies `passed` batches, less one for
each stream, and the index of the result after the start nonce of its deal. -/
theorem Rig.Inv.submitted_eq {r : Rig cfg} (hinv : r.Inv p) {q : Search cfg}
    (hq : r.state.phase = .searching q) {D : Deal} (hD : r.package = some D) (e : Event cfg) :
    (step r.state e).2.submitted = (results r.state e).map fun gid =>
      found q.package cfg.index (p.dealt D).startNonce
        ((r.passed - cfg.cuStreamSize) * q.multiple.batchBlocks.toNat + gid.toNat) := by
  obtain ⟨hdeal, hposition, hpassed⟩ := hinv.search q hq
  rw [CUDAMiner.submitted_eq, hq]
  refine List.map_congr_left fun gid _ => ?_
  have hround : BitVec.ofNat 64 r.passed =
      BitVec.ofNat 64 (r.passed - cfg.cuStreamSize) + BitVec.ofNat 64 cfg.cuStreamSize := by
    rw [← BitVec.ofNat_add, Nat.sub_add_cancel hpassed]
  have hnonce : q.startNonce - q.multiple.streamBlocks.setWidth 64 + gid.setWidth 64 =
      q.package.startNonce + BitVec.ofNat 64
        ((r.passed - cfg.cuStreamSize) * q.multiple.batchBlocks.toNat + gid.toNat) := by
    rw [hposition, Multiple.streamBlocks_eq, batchNonce, hround, BitVec.ofNat_add, BitVec.ofNat_mul,
      BitVec.ofNat_toNat, BitVec.ofNat_toNat]
    ring
  rw [hnonce, (hdeal D hD).1]
  rfl

variable (eval : Eval)

/-- The pool can rebuild every nonce that is submitted in this step. -/
def Rig.Rebuilt (r : Rig cfg) (e : RigEvent cfg) : Prop :=
  ∀ D x, r.package = some D → Received x D.newWp →
    ∀ sol ∈ (step r.state (e.toEvent p)).2.submitted, SubmittedRebuilds eval x sol

/-- The results reported in this step stay within the extranonce of their job. -/
def Rig.Keeps (r : Rig cfg) (e : RigEvent cfg) : Prop :=
  ∀ q D x, r.state.phase = .searching q → r.package = some D → Received x D.newWp →
    ∀ gid ∈ results r.state (e.toEvent p),
      let d := (r.passed - cfg.cuStreamSize) * q.multiple.batchBlocks.toNat + gid.toNat
      (submitProofAsync eval (found q.package cfg.index (p.dealt D).startNonce d)).isSome →
        KeepsExtranonce x (p.dealt D).startNonce d

/-- One step is rebuilt exactly when it stays within the extranonce. -/
theorem Rig.Inv.rebuilt_iff {r : Rig cfg} (hinv : r.Inv p) (e : RigEvent cfg) :
    r.Rebuilt p eval e ↔ r.Keeps p eval e := by
  by_cases hsearch : ∃ q, r.state.phase = .searching q
  · obtain ⟨q, hq⟩ := hsearch
    have hsize {D : Deal} {x : Extranonce} (hD : r.package = some D) (hx : Received x D.newWp) :
        q.package.exSizeBytes = BitVec.ofNat 16 x.digits.length :=
      (((hinv.search q hq).package D hD).2).trans hx.hasExtranonce.exSizeBytes
    constructor
    · intro h q' D x hq' hD hx gid hgid
      cases hq.symm.trans hq'
      have hsol := h D x hD hx
      rw [hinv.submitted_eq p hq hD] at hsol
      exact (submittedRebuilds_found_iff (hsize hD hx)).1 (hsol _ (List.mem_map_of_mem hgid))
    · intro h D x hD hx sol hsol
      rw [hinv.submitted_eq p hq hD] at hsol
      obtain ⟨gid, hgid, rfl⟩ := List.mem_map.1 hsol
      exact (submittedRebuilds_found_iff (hsize hD hx)).2 (h q D x hq hD hx gid hgid)
  · constructor
    · intro _ q D x hq
      exact absurd ⟨q, hq⟩ hsearch
    · intro _ D x _ _ sol hsol
      rw [CUDAMiner.submitted_eq] at hsol
      cases hphase : r.state.phase with
      | searching q => exact absurd ⟨q, hphase⟩ hsearch
      | _ => simp [hphase] at hsol

/-- **Over whole runs of the CUDA miner.** -/
theorem rebuilt_iff_keeps (m : Multiple cfg) (es : List (RigEvent cfg)) :
    Along (Rig.next p) (Rig.Rebuilt p eval) { state := { multiple := m } } es ↔
      Along (Rig.next p) (Rig.Keeps p eval) { state := { multiple := m } } es := by
  have h0 : Rig.Inv p ({ state := { multiple := m } } : Rig cfg) :=
    ⟨holds_init, fun _ h => (nomatch h)⟩
  exact along_iff_along h0 (fun r e hinv => hinv.rebuilt_iff p eval e)
    (fun r e hinv _ => hinv.next e) es

end Rebuilt

end CUDAMiner
end EtcMiner
