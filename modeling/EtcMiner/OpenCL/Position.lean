/-
# Where the OpenCL miner searches

`CLMiner::workLoop` takes the start nonce of a package when its header is a new one, and
steps on by a batch with every launch; a package with the header of the one before goes on
where that one was.  A `Rig` is the miner together with the deals its packages come from:
`current` is the deal of the package whose results are read next, `origin` the deal whose
start nonce was taken, and `offset` the nonces launched between that start and the batch
that is read next.  None of them is a variable of the code.

Along every run what the miner reports for `current` lies `offset` and the index of the
result after the start nonce of `origin` (`Rig.Inv.submitted_eq`).  So the pool can rebuild
the nonces exactly when these stay within the extranonce of the job (`rebuilt_iff_keeps`).
-/

import EtcMiner.OpenCL.WorkLoop
import EtcMiner.Pool.Deal

namespace EtcMiner
namespace CLMiner

open Common Eth Lib Stratum Pool

/-- The call that starts `Miner::setWork`. -/
def Event.isSetWork : Event → Bool
  | .call (.setWorkBegin _) => true
  | _ => false

/-- The results that are read in this step, if it gets as far as to report them. -/
def read (s : State) : Event → List (BitVec 32)
  | .iterate gids _ => gids
  | .initEpochDone _ =>
    match s.phase with
    | .initializing _ gids => gids
    | _ => []
  | _ => []

/-- A launch for `w` takes the start nonce of `w`. -/
def switches (s : State) (w : WorkPackage) : Event → Bool
  | .initEpochDone _ => true
  | _ => decide (s.current.header ≠ w.header)

/-- The call to the miner that a step makes. -/
def callOf (s : State) : Event → Option MinerCall
  | .call c => some c
  | .initEpochFailed what =>
    match s.phase with
    | .initializing _ _ => some (.pause what)
    | _ => none
  | _ => none

theorem callOf_ne_setWorkBegin {s : State} {e : Event} (h : e.isSetWork = false) (w : WorkPackage) :
    callOf s e ≠ some (.setWorkBegin w) := by
  cases e with
  | call c =>
    rintro ⟨⟩
    exact (nomatch h)
  | initEpochFailed what => cases hphase : s.phase <;> simp [callOf, hphase]
  | _ => nofun

/-- The worker starts, with no package launched yet. -/
def restarts (s : State) : Event → Bool
  | .start =>
    match s.phase with
    | .stopped => true
    | _ => false
  | _ => false

section Step

variable (clGroupSize : BitVec 32) (index : ℕ)

/-- **What a step can do.**  It leaves the state alone when the event does not fit the phase,
when a read waits for `setWork` and when the package read is void. -/
inductive Move (s : State) : Event → State × Output → Prop
  | stay {e : Event} (hcall : callOf s e = none) (hstart : restarts s e = false) : Move s e (s, {})
  | call (c : MinerCall) : Move s (.call c) ({ s with miner := s.miner.call c }, {})
  | start (hphase : s.phase = .stopped) :
      Move s .start ({ s with phase := .running, current := {}, startNonce := 0 }, {})
  | stop : Move s .stop ({ s with phase := .stopped, device := none }, {})
  | crash {gids : List (BitVec 32)} {multiple : Option (BitVec 32)} :
      Move s (.iterate gids multiple) ({ s with phase := .crashed }, {})
  | initEpoch {w : WorkPackage} {gids : List (BitVec 32)} {multiple : Option (BitVec 32)}
      (hphase : s.phase = .running) (hread : s.miner.readWork = some w)
      (hheader : s.current.header ≠ w.header) :
      Move s (.iterate gids multiple) ({ s with phase := .initializing w gids, device := none }, {})
  | goOn {w : WorkPackage} {d : Device} {gids : List (BitVec 32)} {multiple : Option (BitVec 32)}
      (hphase : s.phase = .running) (hread : s.miner.readWork = some w) (hvoid : ¬ w.IsVoid)
      (hheader : s.current.header = w.header) :
      Move s (.iterate gids multiple) (launch clGroupSize index s w d gids multiple)
  | newHeader {w : WorkPackage} {dagEpoch : ℤ} {gids : List (BitVec 32)} {multiple : Option (BitVec 32)}
      (hphase : s.phase = .running) (hread : s.miner.readWork = some w)
      (hheader : s.current.header ≠ w.header) :
      Move s (.iterate gids multiple) (switchTo clGroupSize index s w dagEpoch gids multiple)
  | initEpochDone {w₀ w : WorkPackage} {gids : List (BitVec 32)} {multiple : Option (BitVec 32)}
      (hphase : s.phase = .initializing w₀ gids) (hread : s.miner.readWork = some w) :
      Move s (.initEpochDone multiple) (switchTo clGroupSize index s w w₀.epoch gids multiple)
  | initEpochFailed {w₀ : WorkPackage} {gids : List (BitVec 32)} {what : MinerPause}
      (hphase : s.phase = .initializing w₀ gids) :
      Move s (.initEpochFailed what)
        ({ s with phase := .stopped, device := none, miner := s.miner.call (.pause what) }, {})

/-- What a step without launch does. -/
structure Quiet (s : State) (e : Event) : Prop where
  submitted : (step clGroupSize index s e).2.submitted = []
  restarted : restarts s e = true → (next clGroupSize index s e).current = {}
  kept : restarts s e = false → (next clGroupSize index s e).current = s.current ∧
    (next clGroupSize index s e).startNonce = s.startNonce

/-- What a step with the launch `l` does. -/
structure Launches (s : State) (e : Event) (l : Launch) : Prop where
  readWork : s.miner.readWork = some l.package
  startNonce : l.startNonce =
    if switches s l.package e then l.package.startNonce else s.startNonce
  goesOn : switches s l.package e = false →
    ¬ l.package.IsVoid ∧ s.current.header = l.package.header
  current : (next clGroupSize index s e).current = { l.package with startNonce := l.startNonce }
  next : (next clGroupSize index s e).startNonce = l.startNonce + l.batchBlocks.setWidth 64
  submitted : (step clGroupSize index s e).2.submitted =
    ((read s e).take maxSearchResults).map fun gid =>
      ⟨s.current.startNonce + gid.setWidth 64, fun _ => 0, s.current, index⟩

variable {clGroupSize index} {s : State}

theorem iterate_move {w : WorkPackage} (hphase : s.phase = .running)
    (hread : s.miner.readWork = some w) (gids : List (BitVec 32)) (multiple : Option (BitVec 32)) :
    Move clGroupSize index s (.iterate gids multiple)
      (iterate clGroupSize index s w gids multiple) := by
  unfold iterate
  by_cases hvoid : w.IsVoid
  · rw [if_pos hvoid]
    exact .stay rfl rfl
  rw [if_neg hvoid]
  by_cases hheader : s.current.header = w.header
  · rw [if_neg (not_not.2 hheader)]
    split
    · exact .crash
    · exact .goOn hphase hread hvoid hheader
  · rw [if_pos hheader]
    by_cases hepoch : s.current.epoch = w.epoch
    · rw [if_neg (not_not.2 hepoch)]
      split
      · exact .crash
      · exact .newHeader hphase hread hheader
    · rw [if_pos hepoch]
      exact .initEpoch hphase hread hheader

theorem step_move (s : State) (e : Event) :
    Move clGroupSize index s e (step clGroupSize index s e) := by
  cases e with
  | call c => exact .call c
  | start =>
    unfold step
    cases hphase : s.phase with
    | stopped => exact .start hphase
    | _ => exact .stay rfl (by simp only [restarts, hphase])
  | stop =>
    unfold step
    cases s.phase with
    | crashed => exact .stay rfl rfl
    | _ => exact .stop
  | iterate gids multiple =>
    unfold step
    cases hphase : s.phase with
    | running =>
      cases hread : s.miner.readWork with
      | none => exact .stay rfl rfl
      | some w => exact iterate_move hphase hread gids multiple
    | _ => exact .stay rfl rfl
  | initEpochDone multiple =>
    unfold step
    cases hphase : s.phase with
    | initializing w₀ gids =>
      cases hread : s.miner.readWork with
      | none => exact .stay rfl rfl
      | some w => exact .initEpochDone hphase hread
    | _ => exact .stay rfl rfl
  | initEpochFailed what =>
    unfold step
    cases hphase : s.phase with
    | initializing w₀ gids => exact .initEpochFailed hphase
    | _ => exact .stay (by simp only [callOf, hphase]) rfl

/-- A step that ends in `launch`. -/
theorem launches_of_launch {e : Event} {w : WorkPackage} {d : Device} {gids : List (BitVec 32)}
    {multiple : Option (BitVec 32)} {start : BitVec 64} {l : Launch}
    (hstep : step clGroupSize index s e =
      launch clGroupSize index { s with startNonce := start } w d gids multiple)
    (hl : (step clGroupSize index s e).2.launch = some l) (hwork : s.miner.readWork = some w)
    (hread : read s e = gids)
    (hstart : start = if switches s w e then w.startNonce else s.startNonce)
    (hgoesOn : switches s w e = false → ¬ w.IsVoid ∧ s.current.header = w.header) :
    Launches clGroupSize index s e l := by
  rw [hstep] at hl
  cases hl
  refine ⟨hwork, hstart, hgoesOn, ?_, ?_, ?_⟩
  · rw [CLMiner.next, hstep]
    rfl
  · rw [CLMiner.next, hstep]
    rfl
  · rw [hstep, hread]
    rfl

/-- **A step with a launch.** -/
theorem step_launches {e : Event} {l : Launch}
    (hl : (step clGroupSize index s e).2.launch = some l) : Launches clGroupSize index s e l := by
  have hmove := @step_move clGroupSize index s e
  generalize hstep : step clGroupSize index s e = r at hmove
  cases hmove with
  | @goOn w d gids multiple hphase hread hvoid hheader =>
    have hsame : switches s w (.iterate gids multiple) = false := by simp [switches, hheader]
    have hlaunch : step clGroupSize index s (.iterate gids multiple) =
        launch clGroupSize index { s with startNonce := s.startNonce } w d gids multiple := hstep
    exact launches_of_launch hlaunch hl hread rfl (by rw [hsame]; rfl) fun _ => ⟨hvoid, hheader⟩
  | @newHeader w dagEpoch gids multiple hphase hread hheader =>
    have hnew : switches s w (.iterate gids multiple) = true := by simp [switches, hheader]
    exact launches_of_launch hstep hl hread rfl (by rw [hnew]; rfl)
      fun h => absurd (hnew.symm.trans h) (by simp)
  | initEpochDone hphase hread =>
    exact launches_of_launch hstep hl hread (by simp only [read, hphase]) rfl fun h => nomatch h
  | _ =>
    rw [hstep] at hl
    cases hl

/-- **A step without launch.** -/
theorem step_quiet {e : Event} (hl : (step clGroupSize index s e).2.launch = none) :
    Quiet clGroupSize index s e := by
  have hmove := @step_move clGroupSize index s e
  generalize hstep : step clGroupSize index s e = r at hmove
  have hkeeps : ∀ {s' : State}, r = (s', {}) → restarts s e = false → s'.current = s.current →
      s'.startNonce = s.startNonce → Quiet clGroupSize index s e := by
    intro s' hr hstart hcurrent hnonce
    rw [hr] at hstep
    refine ⟨by rw [hstep], fun h => ?_, fun _ => ?_⟩
    · rw [hstart] at h
      cases h
    · rw [CLMiner.next, hstep]
      exact ⟨hcurrent, hnonce⟩
  cases hmove with
  | stay _ hstart => exact hkeeps rfl hstart rfl rfl
  | start hphase =>
    refine ⟨by rw [hstep], fun _ => by rw [CLMiner.next, hstep], fun h => ?_⟩
    simp [restarts, hphase] at h
  | goOn | newHeader | initEpochDone =>
    rw [hstep] at hl
    cases hl
  | _ => exact hkeeps rfl rfl rfl rfl

/-- **What a step does to the packages of the miner.** -/
theorem miner_next (e : Event) :
    (next clGroupSize index s e).miner = (callOf s e).elim s.miner s.miner.call := by
  have hmove := @step_move clGroupSize index s e
  unfold next
  generalize step clGroupSize index s e = r at hmove ⊢
  cases hmove with
  | stay hcall _ => rw [hcall, Option.elim_none]
  | initEpochFailed hphase => simp only [callOf, hphase, Option.elim_some]
  | _ => rfl

end Step

/-- The miner with the deals of its packages. -/
structure Rig where
  state : State := {}
  hand : Hand := {}
  current : Option Deal := none
  origin : Option Deal := none
  offset : ℕ := 0
  pending : ℕ := 0

/-- The farm deals a package out, or the miner takes a step. -/
inductive RigEvent where
  | setWork (D : Deal)
  | other (e : Event) (h : e.isSetWork = false)

section Rig

variable (p : Place) (clGroupSize : BitVec 32)

/-- The step of the miner. -/
def RigEvent.toEvent : RigEvent → Event
  | .setWork D => .call (.setWorkBegin (p.dealt D))
  | .other e _ => e

/-- The deals in the hand after a step. -/
def Rig.nextHand (r : Rig) : RigEvent → Hand
  | .setWork D => r.hand.setWorkBegin r.state.miner D
  | .other e _ => (callOf r.state e).elim r.hand (r.hand.call r.state.miner)

/-- The rig after a step. -/
def Rig.next (r : Rig) (e : RigEvent) : Rig :=
  let r' := { r with
    state := CLMiner.next clGroupSize p.index r.state (e.toEvent p)
    hand := r.nextHand e }
  match (step clGroupSize p.index r.state (e.toEvent p)).2.launch with
  | some l =>
    if switches r.state l.package (e.toEvent p) then
      { r' with
        current := r.hand.work, origin := r.hand.work, offset := 0, pending := l.batchBlocks.toNat }
    else
      { r' with
        current := r.hand.work, offset := r.offset + r.pending, pending := l.batchBlocks.toNat }
  | none =>
    if restarts r.state (e.toEvent p) then { r' with current := none, origin := none } else r'

/-- The rig is right about the position of the search. -/
structure Rig.Inv (r : Rig) : Prop where
  holds : Holds p r.state.miner r.hand
  exSizeBytes : ∀ D, r.current = some D →
    r.state.current.exSizeBytes = D.newWp.exSizeBytes
  position : ∀ O, r.origin = some O →
    r.state.current.startNonce = (p.dealt O).startNonce + BitVec.ofNat 64 r.offset ∧
    r.state.startNonce = (p.dealt O).startNonce + BitVec.ofNat 64 (r.offset + r.pending)
  isVoid : r.origin = none → r.current = none ∧ r.state.current.IsVoid

variable {p clGroupSize} {r : Rig}

theorem Rig.Inv.nextHand (hinv : r.Inv p) (e : RigEvent) :
    Holds p (CLMiner.next clGroupSize p.index r.state (e.toEvent p)).miner (r.nextHand e) := by
  cases e with
  | setWork D => exact hinv.holds.setWorkBegin D
  | other e h =>
    rw [miner_next]
    exact hinv.holds.callOf (callOf_ne_setWorkBegin h)

/-- The package a launch is for is the one in the hand. -/
theorem Rig.Inv.work_eq (hinv : r.Inv p) {w : WorkPackage} (hread : r.state.miner.readWork = some w) :
    (∀ D, r.hand.work = some D → w.startNonce = (p.dealt D).startNonce ∧
      w.exSizeBytes = D.newWp.exSizeBytes) ∧ (r.hand.work = none → w.IsVoid) := by
  obtain rfl := Miner.work_eq_of_readWork hread
  exact ⟨hinv.holds.work, hinv.holds.isVoid⟩

/-- **A step keeps the rig right.** -/
theorem Rig.Inv.next (hinv : r.Inv p) (e : RigEvent) : (r.next p clGroupSize e).Inv p := by
  have hhand : Holds p (CLMiner.next clGroupSize p.index r.state (e.toEvent p)).miner
      (r.nextHand e) := hinv.nextHand e
  unfold Rig.next
  cases hl : (step clGroupSize p.index r.state (e.toEvent p)).2.launch with
  | none =>
    obtain ⟨-, hrestarted, hkept⟩ := step_quiet hl
    simp only
    split_ifs with hrestart
    · refine ⟨hhand, fun _ h => (nomatch h), fun _ h => (nomatch h), fun _ => ⟨rfl, ?_⟩⟩
      simp only [hrestarted hrestart]
      rfl
    · obtain ⟨hcurrent, hstart⟩ := hkept (by simpa using hrestart)
      refine ⟨hhand, ?_, ?_, ?_⟩
      · simpa only [hcurrent] using hinv.exSizeBytes
      · simpa only [hcurrent, hstart] using hinv.position
      · simpa only [hcurrent] using hinv.isVoid
  | some l =>
    obtain ⟨hread, hstart, hgoesOn, hcurrent, hnext, -⟩ := step_launches hl
    obtain ⟨hwork, hvoid⟩ := hinv.work_eq hread
    have hbatch : l.batchBlocks.setWidth 64 = BitVec.ofNat 64 l.batchBlocks.toNat :=
      (BitVec.ofNat_toNat _ _).symm
    simp only
    split_ifs with hswitch
    · rw [if_pos hswitch] at hstart
      refine ⟨hhand, ?_, ?_, ?_⟩
      · intro D hD
        simp only [hcurrent]
        exact (hwork D hD).2
      · intro O hO
        simp only [hcurrent, hnext, hstart, (hwork O hO).1, hbatch, Nat.zero_add]
        simp
      · intro hnone
        refine ⟨hnone, ?_⟩
        simp only [hcurrent]
        exact hvoid hnone
    · rw [if_neg hswitch] at hstart
      obtain ⟨hnonvoid, hheader⟩ := hgoesOn (by simpa using hswitch)
      refine ⟨hhand, ?_, ?_, ?_⟩
      · intro D hD
        simp only [hcurrent]
        exact (hwork D hD).2
      · intro O hO
        obtain ⟨-, hposition⟩ := hinv.position O hO
        simp only [hcurrent, hnext, hstart, hposition, hbatch, BitVec.ofNat_add]
        exact ⟨trivial, by ring⟩
      · intro hnone
        exact absurd (hheader.symm.trans (hinv.isVoid hnone).2) hnonvoid

end Rig

section Rebuilt

variable (p : Place) (clGroupSize : BitVec 32)

/-- The results a step reports. -/
def results (s : State) (e : Event) : List (BitVec 32) :=
  if (step clGroupSize p.index s e).2.launch.isSome then (read s e).take maxSearchResults else []

/-- **Where the solutions are.**  What the miner reports lies `offset` and the index of the
result after the start nonce of `origin`. -/
theorem Rig.Inv.submitted_eq {r : Rig} (hinv : r.Inv p) {O : Deal} (hO : r.origin = some O)
    (e : Event) :
    (step clGroupSize p.index r.state e).2.submitted =
      (results p clGroupSize r.state e).map fun gid =>
        found r.state.current p.index (p.dealt O).startNonce (r.offset + gid.toNat) := by
  unfold results
  cases hl : (step clGroupSize p.index r.state e).2.launch with
  | none => exact (step_quiet hl).submitted
  | some l =>
    rw [(step_launches hl).submitted]
    refine List.map_congr_left fun gid _ => ?_
    rw [found, (hinv.position O hO).1, BitVec.ofNat_add, ← add_assoc, BitVec.ofNat_toNat]

variable (eval : Eval)

/-- The pool can rebuild every nonce that is submitted in this step. -/
def Rig.Rebuilt (r : Rig) (e : RigEvent) : Prop :=
  ∀ D x, r.current = some D → Received x D.newWp →
    ∀ sol ∈ (step clGroupSize p.index r.state (e.toEvent p)).2.submitted,
      SubmittedRebuilds eval x sol

/-- The results reported in this step stay within the extranonce of their job. -/
def Rig.Keeps (r : Rig) (e : RigEvent) : Prop :=
  ∀ D O x, r.current = some D → r.origin = some O → Received x D.newWp →
    ∀ gid ∈ results p clGroupSize r.state (e.toEvent p),
      (submitProofAsync eval
        (found r.state.current p.index (p.dealt O).startNonce (r.offset + gid.toNat))).isSome →
      KeepsExtranonce x (p.dealt O).startNonce (r.offset + gid.toNat)

/-- One step is rebuilt exactly when it stays within the extranonce. -/
theorem Rig.Inv.rebuilt_iff {r : Rig} (hinv : r.Inv p) (e : RigEvent) :
    r.Rebuilt p clGroupSize eval e ↔ r.Keeps p clGroupSize eval e := by
  cases hO : r.origin with
  | none =>
    have hnone := (hinv.isVoid hO).1
    constructor
    · intro _ D O x hD
      exact absurd (hnone.symm.trans hD) (by simp)
    · intro _ D x hD
      exact absurd (hnone.symm.trans hD) (by simp)
  | some O =>
    have hsize {D : Deal} {x : Extranonce} (hD : r.current = some D) (hx : Received x D.newWp) :
        r.state.current.exSizeBytes = BitVec.ofNat 16 x.digits.length :=
      (hinv.exSizeBytes D hD).trans hx.hasExtranonce.exSizeBytes
    unfold Rig.Rebuilt Rig.Keeps
    rw [hinv.submitted_eq p clGroupSize hO]
    constructor
    · intro h D O' x hD hO' hx gid hgid
      cases hO.symm.trans hO'
      exact (submittedRebuilds_found_iff (hsize hD hx)).1 (h D x hD hx _ (List.mem_map_of_mem hgid))
    · intro h D x hD hx sol hsol
      obtain ⟨gid, hgid, rfl⟩ := List.mem_map.1 hsol
      exact (submittedRebuilds_found_iff (hsize hD hx)).2 (h D O x hD hO hx gid hgid)

/-- **Over whole runs of the OpenCL miner.** -/
theorem rebuilt_iff_keeps (es : List RigEvent) :
    Along (Rig.next p clGroupSize) (Rig.Rebuilt p clGroupSize eval) {} es ↔
      Along (Rig.next p clGroupSize) (Rig.Keeps p clGroupSize eval) {} es := by
  have h0 : Rig.Inv p {} :=
    ⟨holds_init, fun _ h => (nomatch h), fun _ h => (nomatch h), fun _ => ⟨rfl, rfl⟩⟩
  exact along_iff_along h0 (fun r e hinv => hinv.rebuilt_iff p clGroupSize eval e)
    (fun r e hinv _ => hinv.next e) es

end Rebuilt

end CLMiner
end EtcMiner
