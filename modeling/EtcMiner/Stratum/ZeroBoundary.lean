/-
# Jobs with a zero boundary

`PoolManager::showMiningAt` divides by the boundary of a job, outside of any `try` block.  The
boundary of a job comes from the job itself in the modes 0 and 1, and from `nextWorkBoundary` of
the session in the modes 2 and 3, which `mining.set_target`, `mining.set_difficulty` and
`mining.set` write.  A job is checked by the division in `getHashesToTarget` only as long as
`nextWorkDifficulty` of the session is zero.

A client that has no session yet receives any number of transmissions.  If no message of a run
leaves the session with a zero `nextWorkBoundary` in the modes 2 and 3, every package that is
dispatched has a boundary to divide by (`dispatched_boundary_ne_zero`).  The boundary may become
zero: `mining.set` writes it before it divides by it, and the division that throws leaves the
difficulty of the target before, with which the next job is not checked
(`zero_boundary_dispatched`).
-/

import EtcMiner.Pool.WorkHandler
import EtcMiner.Stratum.Transmission

namespace EtcMiner
namespace Stratum

open Common Eth Lib

-- the handlers are long sequences
set_option synthInstance.maxSize 100000

/-- The modes in which jobs take the boundary of the session. -/
def usesTarget (mode : ℕ) : Prop := mode = ETHEREUMSTRATUM ∨ mode = ETHEREUMSTRATUM2

instance (mode : ℕ) : Decidable (usesTarget mode) := inferInstanceAs (Decidable (_ ∨ _))

/-- The boundary of the session is not zero, if jobs take it. -/
def Client.TargetSet (c : Client) : Prop :=
  usesTarget c.conn.stratumMode → ∀ s, c.session = some s → s.nextWorkBoundary ≠ fun _ => 0

theorem Client.targetSet_iff (c : Client) : c.TargetSet ↔
    (usesTarget c.conn.stratumMode → c.session.map Session.nextWorkBoundary ≠ some fun _ => 0) := by
  unfold Client.TargetSet
  cases c.session <;> simp

instance (c : Client) : Decidable c.TargetSet := decidable_of_iff' _ c.targetSet_iff

section Runs

variable (rt : Runtime)

/-- The client after a transmission, and the time it comes at.  An exception that leaves
`onRecvSocketDataCompleted` ends the program; here the run goes on, so that there are only more
runs. -/
def Client.received (c : Client) (t : ℤ × List Char) : Client :=
  final (onRecvSocketDataCompleted rt t.1 t.2) c

/-- No message of the transmission leaves the session with a zero boundary. -/
def TargetsSet (c : Client) (t : ℤ × List Char) : Prop :=
  Along (after rt t.1) (fun c m => (after rt t.1 c m).TargetSet) (c.begun t.2) (messages rt c t.2)

instance (c : Client) (t : ℤ × List Char) : Decidable (TargetsSet rt c t) :=
  inferInstanceAs (Decidable (Along _ _ _ _))

/-- The package that the transmission dispatches has a boundary that is not zero, and
`showMiningAt` does not throw. -/
def BoundarySet (c : Client) (t : ℤ × List Char) : Prop :=
  ∀ w, dispatched rt t.1 c t.2 = some w → w.boundary ≠ (fun _ => 0) ∧ Pool.showMiningAt w ≠ none

end Runs

section Difficulty

variable (rt : Runtime) (now : ℤ) {mode : ℕ}

/-- The session has no difficulty of its own. -/
structure Plain (mode : ℕ) (c : Client) : Prop where
  stratumMode : c.conn.stratumMode = mode
  difficulty : ∀ s, c.session = some s → s.nextWorkDifficulty = 0

instance (mode : ℕ) : StableNotify (Plain mode) fun _ => Plain mode where
  stdException h := h
  nullSession h _ := h
  effects h _ := ⟨h.1, h.2⟩
  currentTimestamp h _ := ⟨h.1, h.2⟩
  authpending h _ := ⟨h.1, h.2⟩
  pleas h _ := ⟨h.1, h.2⟩
  unrecoverable h := ⟨h.1, h.2⟩
  confirmed h := ⟨h.1, h.2⟩
  foreignException h := h
  current h _ := ⟨h.1, h.2⟩
  newjobprocessed h _ := ⟨h.1, h.2⟩

/-- A write that leaves the difficulty alone. -/
instance (subscribed authorized : Session → Bool) (extraNonce : Session → BitVec 64)
    (extraNonceSizeBytes : Session → BitVec 32) (nextWorkBoundary : Session → H256) (firstMiningSet : Session → Bool)
    (timeout : Session → BitVec 32) (sessionId workerId : Session → List Char) (epoch : Session → BitVec 32) :
    Preserves (Plain mode) (modifySession fun s => ⟨subscribed s, authorized s, extraNonce s, extraNonceSizeBytes s,
      nextWorkBoundary s, s.nextWorkDifficulty, firstMiningSet s, timeout s, sessionId s, workerId s, epoch s⟩) := by
  refine ⟨fun c hc => ?_⟩
  unfold modifySession
  rw [ends_bind, ends_session]
  refine ⟨fun s hs => ⟨hc.1, ?_⟩, fun _ => hc⟩
  rintro _ ⟨⟩
  exact hc.2 s hs

instance : Preserves (Plain mode) (startSession now) := by
  refine Keeps.bind (keeps_modify fun c hc => ⟨hc.1, ?_⟩) fun _ => inferInstance
  rintro _ ⟨⟩
  rfl

instance : Preserves (Plain mode) (setStratumMode mode) := keeps_modify fun _ hc => ⟨rfl, hc.2⟩

instance (isSuccess : Bool) : Preserves (Plain 1) (proxyResponse now isSuccess) := by
  unfold proxyResponse
  infer_instance

instance (isSuccess : Bool) : Preserves (Plain 0) (stratumResponse now isSuccess) := by
  unfold stratumResponse
  infer_instance

theorem plain_loginResponse (hmode : ¬ usesTarget mode) (h : Header) (jResult : Json) :
    Preserves (Plain mode) (loginResponse rt now h jResult) := by
  refine Keeps.bind inferInstance fun _ => ⟨fun c hc => ?_⟩
  rw [ends_bind, ends_get, ends_ite]
  refine ⟨fun _ => Keeps.ends c hc, fun _ => ?_⟩
  obtain rfl := hc.1
  split
  · rename_i hthree
    exact absurd (.inr hthree) hmode
  · rename_i htwo
    exact absurd (.inl htwo) hmode
  · rename_i hone
    rw [hone] at hc ⊢
    exact Keeps.ends c hc
  · rename_i hzero
    rw [hzero] at hc ⊢
    exact Keeps.ends c hc
  · exact Keeps.ends c hc

theorem plain_subscribeResponse (hmode : ¬ usesTarget mode) (jResult : Json) :
    Preserves (Plain mode) (subscribeResponse now jResult) := by
  refine ⟨fun c hc => ?_⟩
  unfold subscribeResponse
  have hthree : mode ≠ 3 := fun hthree => hmode (.inr hthree)
  rw [ends_bind, ends_stratumMode, hc.1, if_neg hthree]
  exact hc

theorem plain_authorizeResponse (hmode : ¬ usesTarget mode) (h : Header) (jResult : Json) :
    Preserves (Plain mode) (authorizeResponse now h jResult) := by
  refine ⟨fun c hc => ?_⟩
  unfold authorizeResponse
  rw [ends_bind, ends_stratumMode, hc.1]
  rw [if_pos fun hthree => hmode (.inr hthree)]
  exact Keeps.ends c hc

theorem plain_handleResponse (hmode : ¬ usesTarget mode) (h : Header) (m : Json) :
    Preserves (Plain mode) (handleResponse rt now h m) := by
  refine Keeps.bind inferInstance fun jResult => Keeps.bind inferInstance fun c => ?_
  have hlogin := plain_loginResponse rt now hmode h jResult
  have hsubscribe := plain_subscribeResponse now hmode jResult
  have hauthorize := plain_authorizeResponse now hmode h jResult
  infer_instance

instance (m : Json) : Preserves (Plain mode) (setTarget rt m) := by
  unfold setTarget
  infer_instance

theorem plain_handleNotification (hmode : ¬ usesTarget mode) (h : Header) (method : List Char) (m : Json) :
    Preserves (Plain mode) (handleNotification rt now h method m) := by
  refine ⟨fun c hc => ?_⟩
  unfold handleNotification
  have htwo (p : Prop) : ¬ (p ∧ mode = ETHEREUMSTRATUM) := fun hp => hmode (.inl hp.2)
  have hthree (p : Prop) : ¬ (p ∧ mode = ETHEREUMSTRATUM2) := fun hp => hmode (.inr hp.2)
  rw [ends_bind, ends_stratumMode, hc.1, if_neg (htwo _), if_neg (htwo _), if_neg (hthree _), if_neg (hthree _)]
  exact (inferInstance : Preserves (Plain mode) _).ends c hc

/-- **In the modes 0 and 1 no message sets a difficulty.** -/
theorem plain_after (hmode : ¬ usesTarget mode) {c : Client} (hc : Plain mode c) (m : Json) :
    Plain mode (after rt now c m) := by
  have hresponse := fun h => plain_handleResponse rt now hmode h m
  have hnotification := fun h method => plain_handleNotification rt now hmode h method m
  have hdispatch (h : Header) (method : List Char) : Preserves (Plain mode) (dispatch rt now h method m) := by
    unfold dispatch
    infer_instance
  have hmessage : Preserves (Plain mode) (processResponse rt now m) := by
    unfold processResponse
    infer_instance
  exact hmessage.final hc

end Difficulty

section Boundary

variable (rt : Runtime) (now : ℤ) {c : Client} {m : Json} {w : WorkPackage}

/-- **The invariant**: the boundary of the session is set where jobs take it, the session has no
difficulty where they do not, and the job that is held has a boundary. -/
structure Guarded (c : Client) : Prop where
  target : c.TargetSet
  plain : ¬ usesTarget c.conn.stratumMode → Plain c.conn.stratumMode c
  job : ∀ w, c.newJob = some w → w.boundary ≠ fun _ => 0

/-- A boundary that is checked is not zero. -/
theorem boundary_ne_zero_of_jobDifficulty {s : Session} {boundary : H256} {d : ℚ} (hs : s.nextWorkDifficulty = 0)
    (h : jobDifficulty rt s boundary = some d) : boundary ≠ fun _ => 0 := by
  intro hzero
  rw [jobDifficulty, if_neg (not_not.2 hs), (getHashesToTarget_hex_eq_none_iff boundary).2 hzero] at h
  cases h

theorem stratumPackage_boundary {s : Session} {w' : WorkPackage} {mode prmIdx : ℕ} {jPrm : Json}
    (hs : s.nextWorkDifficulty = 0) (h : stratumPackage rt s w' mode jPrm prmIdx = some w) :
    w.boundary ≠ fun _ => 0 := by
  simp only [stratumPackage, Option.bind_eq_bind, Option.bind_eq_some_iff, Option.pure_def,
    Option.some.injEq] at h
  obtain ⟨_, -, _, -, _, -, _, -, _, -, _, -, _, -, boundary, -, d, hd, rfl⟩ := h
  exact boundary_ne_zero_of_jobDifficulty rt hs hd

theorem niceHashPackage_boundary {s : Session} {w' : WorkPackage} {jPrm : Json}
    (h : niceHashPackage rt s w' jPrm = some w) : w.boundary = s.nextWorkBoundary := by
  simp only [niceHashPackage, Option.bind_eq_bind, Option.bind_eq_some_iff, Option.pure_def,
    Option.ite_none_right_eq_some, Option.some.injEq] at h
  obtain ⟨_, -, _, -, -, _, -, _, -, _, -, rfl⟩ := h
  rfl

theorem jobPackage2_boundary {s : Session} {w' : WorkPackage} {jPrm : Json}
    (h : jobPackage2 rt s w' jPrm = some w) : w.boundary = s.nextWorkBoundary := by
  simp only [jobPackage2, h256OfString_hex, Option.bind_eq_bind, Option.bind_eq_some_iff, Option.pure_def,
    Option.some.injEq] at h
  obtain ⟨_, -, _, -, _, -, _, rfl, _, -, rfl⟩ := h
  rfl

/-- What a job in mode 3 leaves has the boundary it had or that of the session. -/
theorem halfRead_boundary (s : Session) (jPrm : Json) (w : WorkPackage) :
    (halfRead rt s jPrm w).boundary = w.boundary ∨
      (halfRead rt s jPrm w).boundary = s.nextWorkBoundary := by
  unfold halfRead
  cases stringParam rt jPrm 0 with
  | none => exact .inl rfl
  | some job =>
    cases (stringParam rt jPrm 1).bind stoull16 with
    | none => exact .inl rfl
    | some block =>
      cases header2 rt jPrm with
      | none => exact .inl rfl
      | some header =>
        rw [h256OfString_hex]
        exact .inr rfl

/-- **A package that is described has a boundary.** -/
theorem Guarded.describe_boundary (hc : Guarded c) (h : describe rt c m = some w) :
    w.boundary ≠ fun _ => 0 := by
  unfold describe at h
  cases hs : c.session with
  | none =>
    rw [hs] at h
    cases h
  | some s =>
    simp only [hs, Option.ite_none_right_eq_some] at h
    obtain ⟨-, h⟩ := h
    split_ifs at h with hmode hsub
    · simp only [jobPackage, Option.bind_eq_bind, Option.bind_eq_some_iff, Option.ite_none_right_eq_some] at h
      obtain ⟨_, -, -, _, -, h⟩ := h
      split_ifs at h with hnice
      · rw [niceHashPackage_boundary rt h]
        exact hc.target (.inl hnice) s hs
      · have hplain := hc.plain fun huses => huses.elim hnice hmode
        exact stratumPackage_boundary rt (hplain.2 s hs) h
    · obtain ⟨jPrm, -, h⟩ := Option.bind_eq_some_iff.1 h
      rw [jobPackage2_boundary rt h]
      exact hc.target (.inr (not_not.1 hmode)) s hs

/-- A notification in mode 3 that is not accepted leaves a boundary. -/
theorem Guarded.leftBy_boundary (hc : Guarded c) (hmode : c.conn.stratumMode = ETHEREUMSTRATUM2)
    (hw : w.boundary ≠ fun _ => 0) : (leftBy rt { c with current := w } m).boundary ≠ fun _ => 0 := by
  unfold leftBy
  cases hs : c.session with
  | none => exact hw
  | some s =>
    dsimp only
    split_ifs
    · cases params2 s m with
      | none => exact hw
      | some jPrm =>
        rcases halfRead_boundary rt s jPrm w with heq | heq
        · rwa [heq]
        · rw [heq]
          exact hc.target (.inr hmode) s hs
    · exact hw

/-- **A message keeps the invariant** unless it sets the boundary of the session to zero. -/
theorem Guarded.after (hc : Guarded c) (htarget : (Stratum.after rt now c m).TargetSet) :
    Guarded (Stratum.after rt now c m) := by
  refine ⟨htarget, fun hmode => ?_, fun w hw => ?_⟩
  · rw [stratumMode_after] at hmode ⊢
    exact plain_after rt now hmode (hc.plain hmode) m
  · by_cases hmode : c.conn.stratumMode = ETHEREUMSTRATUM2
    · rw [newJob_after2 rt now hmode, Option.or_eq_some_iff] at hw
      rcases hw with hw | ⟨-, hw⟩
      · exact hc.describe_boundary rt hw
      · obtain ⟨w', hw', rfl⟩ := Option.map_eq_some_iff.1 hw
        exact hc.leftBy_boundary rt hmode (hc.job w' hw')
    · rw [newJob_after rt now hmode, Option.or_eq_some_iff] at hw
      rcases hw with hw | ⟨-, hw⟩
      · exact hc.job w hw
      · exact hc.describe_boundary rt hw

end Boundary

section Transmissions

variable (rt : Runtime) {c : Client}

/-- The state after the `try` block, whether an exception leaves it or not. -/
theorem final_tryProcessResponse (now : ℤ) (c : Client) (m : Json) :
    final (tryProcessResponse rt now m) c = after rt now c m := by
  unfold tryProcessResponse after final
  cases hrun : processResponse rt now m c with
  | ok u c' => rw [run_tryCatch_of_ok hrun]
  | error e c' =>
    rw [run_tryCatch_of_error hrun]
    cases e <;> rfl

/-- The line loop keeps the invariant. -/
theorem Guarded.processLines (now : ℤ) {lines : List (List Char)} {c : Client} (hc : Guarded c)
    (h : Along (Stratum.after rt now) (fun c m => (Stratum.after rt now c m).TargetSet) c
      (lines.filterMap (messageOf rt))) : Guarded (final (Stratum.processLines rt now lines) c) := by
  induction lines generalizing c with
  | nil => exact hc
  | cons line lines ih =>
    unfold Stratum.processLines
    cases hmsg : messageOf rt line with
    | none =>
      rw [List.filterMap_cons_none hmsg] at h
      exact ih hc h
    | some m =>
      rw [List.filterMap_cons_some hmsg] at h
      have hafter := hc.after rt now h.1
      have hfinal := final_tryProcessResponse rt now c m
      unfold final at hfinal
      cases hrun : tryProcessResponse rt now m c with
      | ok u c' =>
        rw [hrun] at hfinal
        obtain rfl : c' = Stratum.after rt now c m := hfinal
        rw [final_bind_of_ok hrun]
        exact ih hafter h.2
      | error e c' =>
        rw [hrun] at hfinal
        obtain rfl : c' = Stratum.after rt now c m := hfinal
        rw [final_bind_of_error hrun]
        exact hafter

/-- The invariant is about the connection, the session and the job. -/
theorem Guarded.congr {c c' : Client} (hc : Guarded c) (hconn : c'.conn = c.conn) (hsession : c'.session = c.session)
    (hjob : ∀ w, c'.newJob = some w → w.boundary ≠ fun _ => 0) : Guarded c' := by
  refine ⟨?_, ?_, hjob⟩
  · unfold Client.TargetSet
    rw [hconn, hsession]
    exact hc.target
  · rw [hconn]
    intro hmode
    refine ⟨congrArg Conn.stratumMode hconn, ?_⟩
    rw [hsession]
    exact (hc.plain hmode).2

/-- Between transmissions the job does not matter. -/
def Client.Ready (c : Client) : Prop := ∀ rxMessage, Guarded (c.begun rxMessage)

theorem Guarded.ready (hc : Guarded c) : c.Ready := by
  intro rxMessage
  refine hc.congr rfl rfl fun w hw => ?_
  cases hw

/-- **A transmission keeps the invariant.** -/
theorem Client.Ready.received (hc : c.Ready) {t : ℤ × List Char} (h : TargetsSet rt c t) :
    (c.received rt t).Ready := by
  have hlines := (hc t.2).processLines rt t.1 h
  refine Guarded.ready (ends_iff_final.1 ?_)
  unfold onRecvSocketDataCompleted receive
  simp only [ends_bind, ends_modify, ends_get]
  refine (ends_iff_final.2 hlines).imp (fun _ c' hc' => ?_) fun _ _ hc' => hc'
  rw [ends_pure]
  split
  · exact hc'.congr rfl rfl hc'.job
  · exact hc'.congr rfl rfl hc'.job

/-- What a transmission dispatches has a boundary. -/
theorem Client.Ready.boundarySet (hc : c.Ready) {t : ℤ × List Char} (h : TargetsSet rt c t) :
    BoundarySet rt c t := by
  intro w hw
  have hhandled := handled_of_dispatched rt t.1 hw
  rw [dispatched_eq_newJob, if_pos hhandled] at hw
  have hend : Guarded (run (after rt t.1) (c.begun t.2) (messages rt c t.2)) :=
    Along.run_inv (hc t.2) (fun c m hc htarget => hc.after rt t.1 htarget) h
  have hboundary := hend.job w hw
  refine ⟨hboundary, fun hnone => ?_⟩
  unfold Pool.showMiningAt at hnone
  split_ifs at hnone
  exact hboundary ((getHashesToTarget_hex_eq_none_iff _).1 hnone)

end Transmissions

/-- **No job with a zero boundary leaves the stratum client** in a run in which no message leaves
the session with a zero boundary in the modes 2 and 3. -/
theorem dispatched_boundary_ne_zero (rt : Runtime) (c : Client) (ts : List (ℤ × List Char))
    (h : Along (Client.received rt) (TargetsSet rt) { c with session := none } ts) :
    Along (Client.received rt) (BoundarySet rt) { c with session := none } ts := by
  have hinit : ({ c with session := none } : Client).Ready := by
    intro rxMessage
    refine ⟨fun _ s hs => ?_, fun _ => ⟨rfl, fun s hs => ?_⟩, fun w hw => ?_⟩
    · cases hs
    · cases hs
    · cases hw
  exact Along.mono hinit (fun c t hc h => hc.boundarySet rt h) (fun c t hc h => hc.received rt h) h

section Zero

/-- The messages of a pool in mode 3, by the first letter of their lines: a greeting, two targets
and a job. -/
def zeroMessage : List Char → Json
  | 'h' :: _ => .obj [("id".toList, .int 1), ("result".toList, .obj [("proto".toList, .text "EthereumStratum/2.0.0"),
      ("encoding".toList, .null), ("resume".toList, .null), ("timeout".toList, .null), ("maxerrors".toList, .null),
      ("node".toList, .null)])]
  | 's' :: target => .obj [("method".toList, .text "mining.set"), ("params".toList, .obj [("target".toList, .str target)])]
  | line => .obj [("method".toList, .str miningNotify), ("params".toList, .arr [.str line, .text "0", .text "1", .text "0"])]

def zeroRuntime : Runtime where
  parse line := some (zeroMessage line)
  valueToString _ := []
  lexicalCast _ := []
  toDouble q := q
  projectNameWithVersion := []

/-- A client that connects in mode 3. -/
def zeroClient : Client where
  conn := { stratumMode := ETHEREUMSTRATUM2, stratumModeConfirmed := true }
  pleas := { older := 0 }

/-- A target, a job, the target zero and another job. -/
def zeroRun : List (ℤ × List Char) := [(0, "h\nsff\nj\n".toList), (1, "s0\nk\n".toList)]

/-- The job that comes after the target zero. -/
theorem zeroRun_dispatched :
    (dispatched zeroRuntime 1 (zeroClient.received zeroRuntime (0, "h\nsff\nj\n".toList)) "s0\nk\n".toList).map
      (fun w => (w.job, w.boundary)) = some (['k'], fun _ => 0) := by
  decide +kernel

/-- **A job with a zero boundary leaves the client.** -/
theorem zero_boundary_dispatched : ¬ Along (Client.received zeroRuntime) (BoundarySet zeroRuntime) zeroClient zeroRun := by
  rintro ⟨-, hsecond, -⟩
  obtain ⟨w, hw, hjob⟩ := Option.map_eq_some_iff.1 zeroRun_dispatched
  exact (hsecond w hw).1 (Prod.mk.inj hjob).2

/-- Before that the targets are set and the job is fit. -/
theorem dispatched_boundary_ne_zero_first :
    (dispatched zeroRuntime 0 zeroClient "h\nsff\nj\n".toList).isSome ∧
      Along (Client.received zeroRuntime) (BoundarySet zeroRuntime) zeroClient [(0, "h\nsff\nj\n".toList)] :=
  ⟨by decide +kernel, dispatched_boundary_ne_zero zeroRuntime zeroClient _ (by decide +kernel)⟩

end Zero

end Stratum
end EtcMiner
