/-
# Messages that need a session

A session exists from the reply to the login on, but the branches of `processResponse` for
the ids 2 and 3 and for the `mining.set...` notifications write through `m_session` without
asking whether there is one.  `usesSession` says of a message that it reaches such a write;
on a client without a session this is the use of a null pointer, and nothing else is
(`nullSession_iff`).

A scheme that names its flavour has the mode confirmed before the login is sent, so a pool
reaches all of these branches with its first message (`earlyRun`).
-/

import EtcMiner.Stratum.JobMessage
import EtcMiner.Stratum.Link

namespace EtcMiner
namespace Stratum

open Common Eth Lib

-- the handlers are long sequences
set_option synthInstance.maxSize 100000

section Uses

variable (rt : Runtime)

/-- The target that `mining.set_target` writes. -/
def nextTarget (m : Json) : Option H256 := do
  let jPrm ← m.get "params" .null
  if jPrm.isArray then paddedHash (← (← jPrm.getIdx 0 .null).asString rt.valueToString) else none

/-- The target that `mining.set_difficulty` writes. -/
def nextDifficulty (m : Json) : Option H256 := do
  let jPrm ← m.get "params" .null
  if jPrm.isArray then
    let difficulty ← (← jPrm.getIdx 0 (.int 1)).asDouble rt.toDouble
    let nextWorkDifficulty := max difficulty (rt.toDouble (1 / 10000))
    let inverse := rt.toDouble (1 / nextWorkDifficulty)
    h256OfString (← getTargetFromDiff nextWorkDifficulty inverse (rt.lexicalCast inverse))
  else none

/-- The extranonce of `mining.set_extranonce`. -/
def nextExtranonce (m : Json) : Option (List Char) := do
  let jPrm ← m.get "params" .null
  if jPrm.isArray then stringParam rt jPrm 0 else none

/-- A notification that writes through `m_session`. -/
def notificationUses (mode : ℕ) (method : List Char) (m : Json) : Bool :=
  if method = miningNotify then false
  else if method = "mining.set_target".toList then (nextTarget rt m).isSome
  else if method = "mining.set_difficulty".toList ∧ mode = ETHEREUMSTRATUM then
    (nextDifficulty rt m).isSome
  else if method = "mining.set_extranonce".toList ∧ mode = ETHEREUMSTRATUM then
    (nextExtranonce rt m).any fun enonce => enonce ≠ []
  else if method = "mining.set".toList ∧ mode = ETHEREUMSTRATUM2 then
    (m.member "params").any fun jPrm => jPrm.isObject && !jPrm.empty
  else false

/-- A text that is not empty. -/
def isText : Json → Bool
  | .str s => s ≠ []
  | _ => false

/-- A response that writes through `m_session`. -/
def responseUses (mode : ℕ) (h : Header) (jResult : Json) : Bool :=
  if h.id = 2 then mode = ETHEREUMSTRATUM2 && isText jResult
  else if h.id = 3 then mode ≠ ETHEREUMSTRATUM2 || (h.isSuccess && isText jResult)
  else false

/-- A message that writes through `m_session`. -/
def usesSession (conn : Conn) (m : Json) : Option Bool := do
  let h ← retrieve rt m
  let method ← methodOf conn.stratumMode h m
  let jResult ← m.get "result" .null
  return !(← insane h m) &&
    if h.isNotification then conn.stratumModeConfirmed && notificationUses rt conn.stratumMode method m
    else responseUses conn.stratumMode h jResult

end Uses

/-- `x` uses a null `m_session`. -/
def NullSession {α : Type} (x : ClientM α) (c : Client) : Prop := thrown x c = some .undefinedBehaviour

section WithSession

/-- There is a session. -/
def HasSession (c : Client) : Prop := c.session.isSome = true

/-- There is a session, and the exception is not the use of a null pointer. -/
def Harmless (e : Fault) (c : Client) : Prop := e ≠ .undefinedBehaviour ∧ HasSession c

/-- With a session there is no such use. -/
instance : StableJob HasSession Harmless where
  stdException h := ⟨by decide, h⟩
  foreignException h := ⟨by decide, h⟩
  nullSession h hs := absurd hs (Option.isSome_iff_ne_none.1 h)
  caught h := h.2
  effects h _ := h
  session _ _ := rfl
  currentTimestamp h _ := h
  authpending h _ := h
  pleas h _ := h
  unrecoverable h := h
  confirmed h := h
  current h _ := h
  newjobprocessed h _ := h
  message h _ := h
  solutionSubmittedMaxId h _ _ := h

theorem not_nullSession_iff {α : Type} {x : ClientM α} {c : Client} :
    ¬ NullSession x c ↔ Ends x c (fun _ _ => True) fun e _ => e ≠ .undefinedBehaviour := by
  unfold NullSession thrown Ends
  cases x c <;> simp

end WithSession

section Rules

variable {α β : Type} {c : Client}

theorem nullSession_expect_bind {o : Option α} {f : α → ClientM β} :
    NullSession (expect o >>= f) c ↔ ∃ a, o = some a ∧ NullSession (f a) c := by
  cases o with
  | none => exact iff_of_false (fun h => nomatch h) (by simp)
  | some a => simp [expect, ofOption_some_bind]

theorem nullSession_bind {x : ClientM α} {f : α → ClientM β} :
    NullSession (x >>= f) c ↔
      NullSession x c ∨ ∃ a c', x c = .ok a c' ∧ NullSession (f a) c' := by
  unfold NullSession thrown
  simp only [bind, EStateM.bind]
  cases x c <;> simp

theorem nullSession_ite {p : Prop} [Decidable p] {x y : ClientM α} :
    NullSession (if p then x else y) c ↔ (p ∧ NullSession x c) ∨ (¬ p ∧ NullSession y c) := by
  by_cases hp : p <;> simp [hp]

theorem not_nullSession_pure (a : α) : ¬ NullSession (pure a) c := fun h => nomatch h

theorem nullSession_modifySession_bind (hs : c.session = none) (f : Session → Session)
    (k : Unit → ClientM β) : NullSession (modifySession f >>= k) c := by
  unfold NullSession thrown
  rw [run_bind_of_error (modifySession_run_none hs)]

theorem nullSession_modifySession (hs : c.session = none) (f : Session → Session) :
    NullSession (modifySession f) c := by
  unfold NullSession thrown
  rw [modifySession_run_none hs]

end Rules

section Branches

variable (rt : Runtime) (now : ℤ) {c : Client}

/-- A chain of reads is read on both sides. -/
theorem isSome_bind_iff {α β : Type} {o : Option α} {g : α → Option β} :
    (o >>= g).isSome = true ↔ ∃ a, o = some a ∧ (g a).isSome = true := by
  cases o <;> simp

theorem setTarget_nullSession (hs : c.session = none) (m : Json) :
    NullSession (setTarget rt m) c ↔ (nextTarget rt m).isSome = true := by
  unfold setTarget nextTarget
  rw [nullSession_expect_bind, isSome_bind_iff]
  refine exists_congr fun jPrm => and_congr_right fun _ => ?_
  rw [nullSession_ite]
  by_cases harray : jPrm.isArray = true
  · simp only [harray, not_true, false_and, or_false, true_and, if_true, asString,
      nullSession_expect_bind, isSome_bind_iff]
    refine exists_congr fun v => and_congr_right fun _ => exists_congr fun target =>
      and_congr_right fun _ => ?_
    simp [nullSession_modifySession hs, Option.isSome_iff_exists]
  · simp [harray, not_nullSession_pure]

theorem setNextWorkDifficulty_nullSession (hs : c.session = none) (m : Json) :
    NullSession (setNextWorkDifficulty rt m) c ↔ (nextDifficulty rt m).isSome = true := by
  unfold setNextWorkDifficulty nextDifficulty
  rw [nullSession_expect_bind, isSome_bind_iff]
  refine exists_congr fun jPrm => and_congr_right fun _ => ?_
  rw [nullSession_ite]
  by_cases harray : jPrm.isArray = true
  · simp only [harray, not_true, false_and, or_false, true_and, if_true,
      nullSession_expect_bind, isSome_bind_iff]
    refine exists_congr fun v => and_congr_right fun _ => exists_congr fun difficulty =>
      and_congr_right fun _ => exists_congr fun target => and_congr_right fun _ => ?_
    simp [nullSession_modifySession hs, Option.isSome_iff_exists]
  · simp [harray, not_nullSession_pure]

theorem processExtranonce_nullSession (hs : c.session = none) (enonce : List Char) :
    NullSession (processExtranonce enonce) c := nullSession_modifySession_bind hs _ _

theorem setExtranonce_nullSession (hs : c.session = none) (m : Json) :
    NullSession (setExtranonce rt m) c ↔
      (nextExtranonce rt m).any (fun enonce => enonce ≠ []) = true := by
  unfold setExtranonce nextExtranonce
  rw [nullSession_expect_bind, Option.any_eq_true]
  simp only [Option.bind_eq_bind, Option.bind_eq_some_iff, nullSession_ite, nullSession_expect_bind,
    not_nullSession_pure, and_false, or_false, processExtranonce_nullSession hs, and_true]
  constructor
  · rintro ⟨jPrm, hprm, harray, enonce, henonce, hne⟩
    exact ⟨enonce, ⟨jPrm, hprm, by rw [if_pos harray, henonce]⟩, by simpa using hne⟩
  · rintro ⟨enonce, ⟨jPrm, hprm, henonce⟩, hne⟩
    split_ifs at henonce with harray
    exact ⟨jPrm, hprm, harray, enonce, henonce, by simpa using hne⟩

theorem miningSet_nullSession (hs : c.session = none) (m : Json) :
    NullSession (miningSet rt m) c ↔
      (m.member "params").any (fun jPrm => jPrm.isObject && !jPrm.empty) = true := by
  unfold miningSet
  rw [nullSession_expect_bind, Option.any_eq_true]
  refine exists_congr fun jPrm => and_congr_right fun _ => ?_
  rw [nullSession_ite]
  simp [not_nullSession_pure, nullSession_modifySession_bind hs]

/-- Jobs are discarded without a session. -/
theorem notify_not_nullSession (hs : c.session = none) (m : Json) :
    ¬ NullSession (notify rt now m) c ∧ ¬ NullSession (notify2 rt now m) c := by
  constructor
  · rw [not_nullSession_iff]
    unfold notify
    rw [ends_bind, ends_get, if_pos (.inl (by simp [isSubscribed, hs]))]
    trivial
  · rw [not_nullSession_iff]
    unfold notify2
    rw [ends_bind, ends_get, hs]
    trivial

theorem handleNotification_nullSession (hs : c.session = none) (h : Header) (method : List Char)
    (m : Json) :
    NullSession (handleNotification rt now h method m) c ↔
      notificationUses rt c.conn.stratumMode method m = true := by
  have hrun : NullSession (handleNotification rt now h method m) c ↔ NullSession
      (if method = miningNotify then
        if c.conn.stratumMode ≠ ETHEREUMSTRATUM2 then notify rt now m else notify2 rt now m
      else if method = "mining.set_target".toList then setTarget rt m
      else if method = "mining.set_difficulty".toList ∧ c.conn.stratumMode = ETHEREUMSTRATUM then
        setNextWorkDifficulty rt m
      else if method = "mining.set_extranonce".toList ∧ c.conn.stratumMode = ETHEREUMSTRATUM then
        setExtranonce rt m
      else if method = "mining.set".toList ∧ c.conn.stratumMode = ETHEREUMSTRATUM2 then miningSet rt m
      else if method = "mining.bye".toList ∧ c.conn.stratumMode = ETHEREUMSTRATUM2 then postDisconnect
      else if method = "client.get_version".toList then send (versionAnswer rt h)
      else send (unknownMethodAnswer h)) c := Iff.rfl
  obtain ⟨hnotify, hnotify2⟩ := notify_not_nullSession rt now hs m
  rw [hrun]
  unfold notificationUses
  split_ifs
  · simpa using hnotify
  · simpa using hnotify2
  · exact setTarget_nullSession rt hs m
  · exact setNextWorkDifficulty_nullSession rt hs m
  · exact setExtranonce_nullSession rt hs m
  · exact miningSet_nullSession rt hs m
  all_goals exact iff_of_false (fun h => nomatch h) (by simp)

theorem nullSession_stratumMode_bind {α : Type} {k : ℕ → ClientM α} :
    NullSession (stratumMode >>= k) c ↔ NullSession (k c.conn.stratumMode) c := Iff.rfl

theorem nullSession_dequeue_bind {α : Type} {k : ℤ → ClientM α} :
    NullSession (dequeueResponsePlea now >>= k) c ↔
      NullSession (k (c.pleas.dequeue now).2) { c with pleas := (c.pleas.dequeue now).1 } := Iff.rfl

/-- The rest of a login has a session. -/
theorem startSession_bind_not_nullSession {α : Type} {k : Unit → ClientM α}
    [hk : ∀ u, Keeps HasSession Harmless (k u)] :
    ¬ NullSession (startSession now >>= k) c := by
  rw [not_nullSession_iff, ends_bind]
  refine ((hk ()).ends _ ?_).imp (fun _ _ _ => trivial) fun _ _ h => h.1
  exact Option.isSome_some

theorem negotiationFailed_not_nullSession : ¬ NullSession negotiationFailed c := by
  rw [not_nullSession_iff]
  unfold negotiationFailed
  rw [ends_bind, ends_get]
  split_ifs <;> trivial

/-- A mode is confirmed and a session started, or neither. -/
theorem login_not_nullSession {o : Bool} {mode : ℕ} {k : Unit → ClientM Unit}
    [∀ u, Keeps HasSession Harmless (k u)] :
    ¬ NullSession (if o then setStratumMode mode >>= fun _ => startSession now >>= k
      else negotiationFailed) c := by
  split_ifs
  · exact startSession_bind_not_nullSession now
  · exact negotiationFailed_not_nullSession

theorem loginResponse_not_nullSession (h : Header) (jResult : Json) :
    ¬ NullSession (loginResponse rt now h jResult) c := by
  unfold loginResponse
  rw [nullSession_dequeue_bind]
  intro hnull
  change NullSession (if _ then _ else _) _ at hnull
  split_ifs at hnull
  · cases hnull
  · split at hnull
    · obtain ⟨accepted, -, hnull⟩ := nullSession_expect_bind.1 hnull
      exact login_not_nullSession now hnull
    · obtain ⟨accepted, -, hnull⟩ := nullSession_expect_bind.1 hnull
      dsimp only at hnull
      exact login_not_nullSession now hnull
    · exact login_not_nullSession now hnull
    · exact login_not_nullSession now hnull
    · cases hnull

theorem subscribeResponse_nullSession (hs : c.session = none) (jResult : Json) :
    NullSession (subscribeResponse now jResult) c ↔
      c.conn.stratumMode = ETHEREUMSTRATUM2 ∧ isText jResult = true := by
  unfold subscribeResponse
  rw [nullSession_stratumMode_bind, nullSession_ite, nullSession_dequeue_bind]
  refine (or_iff_left fun h => not_nullSession_pure () h.2).trans (and_congr_right fun _ => ?_)
  cases jResult with
  | str sessionId =>
    dsimp only
    by_cases hempty : sessionId = []
    · rw [if_pos hempty]
      exact iff_of_false (fun h => by cases h) (by simp [isText, hempty])
    · rw [if_neg hempty]
      refine iff_of_true ?_ (by simp [isText, hempty])
      apply nullSession_modifySession_bind
      exact hs
  | _ => exact iff_of_false (fun h => by cases h) (by simp [isText])

theorem nullSession_storeAuthpending_bind {α : Type} {v : Bool} {k : Unit → ClientM α} :
    NullSession (storeAuthpending v >>= k) c ↔ NullSession (k ()) { c with authpending := v } :=
  Iff.rfl

theorem authorizeResponse_nullSession (hs : c.session = none) (h : Header) (jResult : Json) :
    NullSession (authorizeResponse now h jResult) c ↔
      c.conn.stratumMode ≠ ETHEREUMSTRATUM2 ∨ (h.isSuccess = true ∧ isText jResult = true) := by
  unfold authorizeResponse
  rw [nullSession_stratumMode_bind, nullSession_dequeue_bind]
  by_cases hmode : c.conn.stratumMode = ETHEREUMSTRATUM2
  · rw [if_neg (not_not.2 hmode)]
    simp only [hmode, ne_eq, not_true, false_or]
    cases jResult with
    | str workerId =>
      dsimp only
      rw [nullSession_ite, nullSession_storeAuthpending_bind]
      have hwrite := nullSession_modifySession (c := { c with pleas := (c.pleas.dequeue now).1, authpending := false }) hs
        fun s => { s with authorized := true, workerId := workerId }
      have hnone : ¬ NullSession (markUnrecoverable >>= fun _ => postDisconnect)
        { c with pleas := (c.pleas.dequeue now).1 } := fun h => by cases h
      simp [hwrite, hnone, isText]
    | _ =>
      dsimp only
      rw [if_pos (.inr rfl)]
      exact iff_of_false (fun h => by cases h) (by simp [isText])
  · rw [if_pos hmode, nullSession_storeAuthpending_bind]
    refine iff_of_true ?_ (.inl hmode)
    apply nullSession_modifySession_bind
    exact hs

/-- The responses to submissions do not use the session. -/
theorem submitResponse_not_nullSession (h : Header) (m jResult : Json) :
    ¬ NullSession (submitResponse rt now h m jResult) c := by
  unfold submitResponse
  rw [nullSession_stratumMode_bind, nullSession_dequeue_bind]
  intro hnull
  dsimp only at hnull
  split_ifs at hnull
  · cases hnull
  · cases hnull
  · cases hnull
  · obtain ⟨error, -, hnull⟩ := nullSession_expect_bind.1 hnull
    obtain ⟨code, -, hnull⟩ := nullSession_expect_bind.1 hnull
    obtain ⟨errCode, -, hnull⟩ := nullSession_expect_bind.1 hnull
    split_ifs at hnull <;> cases hnull

/-- Stray responses do not use the session. -/
theorem strayResponse_not_nullSession (h : Header) : ¬ NullSession (strayResponse h) c := by
  rw [not_nullSession_iff]
  unfold strayResponse
  rw [ends_bind, ends_get]
  split_ifs <;> trivial

theorem handleResponse_nullSession (hs : c.session = none) (h : Header) {m jResult : Json}
    (hresult : m.get "result" .null = some jResult) :
    NullSession (handleResponse rt now h m) c ↔
      responseUses c.conn.stratumMode h jResult = true := by
  have hbranch (x : ClientM Unit) : NullSession (x >>= fun _ => pure false) c ↔ NullSession x c := by
    rw [nullSession_bind]
    exact or_iff_left fun ⟨_, _, _, h⟩ => not_nullSession_pure _ h
  unfold handleResponse responseUses
  rw [hresult]
  change NullSession (if _ then _ else _) c ↔ _
  by_cases h1 : h.id = 1
  · rw [if_pos h1, hbranch]
    exact iff_of_false (loginResponse_not_nullSession rt now h jResult) (by simp [h1])
  rw [if_neg h1]
  by_cases h2 : h.id = 2
  · rw [if_pos h2, if_pos h2, hbranch, subscribeResponse_nullSession now hs]
    simp
  rw [if_neg h2, if_neg h2]
  by_cases h3 : h.id = 3
  · rw [if_pos h3, if_pos h3, hbranch, authorizeResponse_nullSession now hs]
    simp
  rw [if_neg h3, if_neg h3]
  refine iff_of_false (fun hnull => ?_) (by simp)
  split_ifs at hnull
  · exact submitResponse_not_nullSession rt now h m jResult ((hbranch _).1 hnull)
  · exact not_nullSession_pure _ hnull
  · exact strayResponse_not_nullSession h ((hbranch _).1 hnull)
  · exact not_nullSession_pure _ hnull

/-- A response that is a job comes to a client in the same state, which has no use for it
without a session. -/
theorem responseJob_not_nullSession (hs : c.session = none) {h : Header} {m jResult : Json}
    (hresult : m.get "result" .null = some jResult) {isJob : Bool} {c' : Client}
    (hrun : handleResponse rt now h m c = .ok isJob c') :
    ¬ NullSession (do
      if isJob ∧ (← get).conn.stratumModeConfirmed then
        handleNotification rt now h miningNotify m) c' := by
  change ¬ NullSession (if isJob = true ∧ c'.conn.stratumModeConfirmed = true then _ else _) c'
  by_cases hid : h.id = 5
  · rw [handleResponse_five rt now hid hresult] at hrun
    cases hrun
    split_ifs
    · rw [handleNotification_nullSession rt now hs]
      simp [notificationUses]
    · exact not_nullSession_pure ()
  · have hends := handleResponse_of_ne_five rt now hid m (c := c) ⟨rfl, rfl, rfl⟩
    unfold Ends at hends
    rw [hrun] at hends
    rw [hends.1, if_neg (by simp)]
    exact not_nullSession_pure ()

theorem dispatch_nullSession (hs : c.session = none) (h : Header) (method : List Char)
    {m jResult : Json} (hresult : m.get "result" .null = some jResult) :
    NullSession (dispatch rt now h method m) c ↔
      (if h.isNotification then
        c.conn.stratumModeConfirmed && notificationUses rt c.conn.stratumMode method m
      else responseUses c.conn.stratumMode h jResult) = true := by
  unfold dispatch
  by_cases hnote : h.isNotification = true
  · rw [if_pos hnote, if_pos hnote]
    change NullSession (if c.conn.stratumModeConfirmed = true then _ else _) c ↔ _
    rw [nullSession_ite, handleNotification_nullSession rt now hs, Bool.and_eq_true]
    exact or_iff_left fun h => not_nullSession_pure () h.2
  · rw [if_neg hnote, if_neg hnote, nullSession_bind, handleResponse_nullSession rt now hs h hresult]
    refine or_iff_left ?_
    rintro ⟨isJob, c', hrun, hnull⟩
    exact responseJob_not_nullSession rt now hs hresult hrun hnull

end Branches

/-- **When a message makes the client use a session that does not exist**: exactly when it
writes through `m_session` and there is no session. -/
theorem nullSession_iff (rt : Runtime) (now : ℤ) (c : Client) (m : Json) :
    thrown (processResponse rt now m) c = some .undefinedBehaviour ↔
      c.session = none ∧ usesSession rt c.conn m = some true := by
  change NullSession _ c ↔ _
  cases hs : c.session with
  | some s =>
    refine iff_of_false (not_nullSession_iff.2 ?_) (fun h => nomatch h.1)
    have hsome : HasSession c := by
      rw [HasSession, hs, Option.isSome_some]
    exact (Keeps.ends (P := HasSession) (E := Harmless) c hsome).imp
      (fun _ _ _ => trivial) fun _ _ h => h.1
  | none =>
    rw [and_iff_right rfl]
    unfold processResponse usesSession
    simp only [nullSession_expect_bind, nullSession_stratumMode_bind, Option.bind_eq_bind,
      Option.bind_eq_some_iff, Option.pure_def, Option.some.injEq, Bool.and_eq_true,
      Bool.not_eq_true']
    refine exists_congr fun h => and_congr_right fun _ => exists_congr fun method =>
      and_congr_right fun hmethod => ?_
    -- the method has been retrieved, so there is a result to look at
    obtain ⟨jResult, hresult⟩ : ∃ v, m.get "result" .null = some v := by
      simp only [methodOf, Option.bind_eq_bind, Option.bind_eq_some_iff] at hmethod
      exact hmethod.imp fun v hv => hv.1
    constructor
    · rintro ⟨bad, hsane, hnull⟩
      cases bad with
      | true => cases hnull
      | false =>
        rw [if_neg (by simp)] at hnull
        exact ⟨jResult, hresult, false, hsane, rfl,
          (dispatch_nullSession rt now hs h method hresult).1 hnull⟩
    · rintro ⟨v, hv, bad, hsane, rfl, huses⟩
      obtain rfl : jResult = v := Option.some.inj (hresult.symm.trans hv)
      refine ⟨false, hsane, ?_⟩
      rw [if_neg (by simp)]
      exact (dispatch_nullSession rt now hs h method hresult).2 huses

section EarlyReply

/-- A pool that answers every line with a response to `mining.subscribe`. -/
def subscribeReply (line : List Char) : Json := .obj [("id".toList, .int 2), ("result".toList, .str line)]

def earlyRuntime : Runtime where
  parse line := some (subscribeReply line)
  valueToString _ := []
  lexicalCast _ := []
  toDouble q := q
  projectNameWithVersion := []

/-- A client that is about to connect to `stratum3+tcp://user@127.0.0.1:4444`. -/
def earlyLink : Link :=
  .init
    { uri := "stratum3+tcp://user@127.0.0.1:4444".toList
      scheme := ⟨.stratum, .none, 3⟩
      host := "127.0.0.1".toList
      port := 4444
      hostType := .ipv4 }
    { stratumMode := 999, user := "user".toList } 180 2 0

/-- The client connects, and the first line of the pool is a response to a request that has
not been sent. -/
def earlyRun : List Link.Event :=
  [.connect, .run 0, .run 0, .connected false false, .run 0, .received (some "x\n".toList), .run 0]

/-- **The first message of a pool can make the client use a session that does not exist.** -/
theorem early_nullSession :
    (run (LinkRun.next earlyRuntime) ⟨earlyLink, none⟩ (earlyRun.take 6)).crash = none ∧
      thrown (processResponse earlyRuntime 0 (subscribeReply ['x']))
        (run (LinkRun.next earlyRuntime) ⟨earlyLink, none⟩ (earlyRun.take 6)).link.client =
        some .undefinedBehaviour ∧
      (run (LinkRun.next earlyRuntime) ⟨earlyLink, none⟩ earlyRun).crash = some .nullSession := by
  decide +kernel

end EarlyReply

end Stratum
end EtcMiner
