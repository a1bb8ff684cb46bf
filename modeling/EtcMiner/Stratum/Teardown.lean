/-
# A connection is torn down once

The pool manager unsets the connection in its `onDisconnected` handler.  Nothing sets it
again for the same client, so `onDisconnected` is raised at most once
(`Surrenders`).  But a disconnect that is still in the queue then
runs into the connection that is no longer there: two lines that each post one are enough
(`twoDisconnects_nullConn`).

No step of `disconnect` or `disconnect_finalize` uses an unset connection in a run in which
no teardown is left in the queue when the connection is unset, and none is posted or called
afterwards (`NoTeardownLeft`, `torn_down_once`).
-/

import EtcMiner.Stratum.Steps

namespace EtcMiner
namespace Stratum

open Common Eth Lib Pool

-- the handlers are long sequences
set_option synthInstance.maxSize 100000

namespace Link

variable {l l' : Link} {now : ℤ}

/-- How often `onDisconnected` has been raised. -/
def disconnects (l : Link) : ℕ := l.raised.countP fun c => !c.isQuiet

/-- The connection is given back at most once, and not before it is unset. -/
structure Surrenders (l : Link) : Prop where
  once : l.disconnects ≤ 1
  unset : l.connSet = true → l.disconnects = 0

theorem Quiet.disconnects (h : Quiet l l') : l'.disconnects = l.disconnects := by
  obtain ⟨cs, hraised, hquiet⟩ := h.raised
  have hnone : cs.countP (fun c => !c.isQuiet) = 0 := by
    rw [List.countP_eq_zero]
    simpa using hquiet
  rw [Link.disconnects, hraised, List.countP_append, hnone, Nat.add_zero, ← Link.disconnects]

theorem Surrenders.of_quiet (hl : l.Surrenders) (h : Quiet l l') : l'.Surrenders where
  once := h.disconnects ▸ hl.once
  unset hconn := h.disconnects ▸ hl.unset (h.connSet ▸ hconn)

/-- What does not touch the connection and raises nothing. -/
theorem Surrenders.of_same (hl : l.Surrenders) (hconn : l'.connSet = l.connSet)
    (hraised : l'.raised = l.raised) : l'.Surrenders := by
  obtain ⟨honce, hunset⟩ := hl
  refine ⟨?_, fun h => ?_⟩
  · rw [Link.disconnects, hraised]
    exact honce
  · rw [Link.disconnects, hraised]
    exact hunset (hconn ▸ h)

theorem Surrenders.finished (hl : l.Surrenders) (hconn : l.connSet = true) :
    (l.finished now).Surrenders := by
  have hcount : (l.finished now).disconnects = 1 := by
    have hzero : l.disconnects = 0 := hl.unset hconn
    simp only [Link.disconnects, Link.finished, List.countP_append] at hzero ⊢
    rw [hzero]
    rfl
  exact ⟨hcount.le, fun h => nomatch h⟩

theorem Surrenders.finalized (hl : l.Surrenders) (hconn : l.connSet = true) :
    (l.finalized now).Surrenders := by
  unfold Link.finalized
  split_ifs
  · exact hl.of_same rfl rfl
  · exact Surrenders.finished (hl.of_same rfl rfl) hconn
  · exact Surrenders.finished (hl.of_same rfl rfl) hconn

theorem Surrenders.refused (hl : l.Surrenders) : l.refused.Surrenders := by
  unfold Link.refused
  split_ifs
  · exact hl.of_same rfl rfl
  · exact hl

/-- **One handler.** -/
theorem Surrenders.outcome {k : Kind} (hl : l.Surrenders) (h : Outcome now k l l') : l'.Surrenders := by
  cases h with
  | quiet _ hquiet => exact hl.of_quiet hquiet
  | skip _ => exact hl
  | disconnect hconn _ => exact Surrenders.finalized (hl.of_same rfl rfl) hconn
  | shutDown _ _ => exact hl.of_same rfl rfl
  | finalize hconn => exact hl.finalized hconn
  | exhaust hconn _ => exact hl.finalized hconn
  | dial _ _ => exact hl.of_same rfl rfl
  | resolve n => exact hl.of_same rfl rfl
  | unresolved hconn => exact Surrenders.finalized (hl.of_same rfl rfl) hconn
  | refuse n _ => exact hl.refused.of_same rfl rfl
  | tlsFail _ _ => exact hl.of_same rfl rfl
  | accept _ _ hquiet =>
    refine Surrenders.of_quiet ?_ hquiet
    exact hl.of_same rfl rfl
  | timeOut _ hquiet _ _ => exact (hl.of_quiet hquiet).of_same rfl rfl
  | shutdown => exact hl.of_same rfl rfl

/-- **One step.** -/
theorem Surrenders.move {e : Event} (hl : l.Surrenders) (h : Move e l l') : l'.Surrenders := by
  cases h with
  | stay => exact hl
  | run _ hout =>
    refine Surrenders.outcome ?_ hout
    exact hl.of_same rfl rfl
  | disconnect hout => exact hl.outcome hout
  | quiet _ hquiet => exact hl.of_quiet hquiet
  | _ => exact hl.of_same rfl rfl

section Errors

/-- Any state. -/
def Any (_ : Link) : Prop := True

/-- The failure is not one of a teardown. -/
def Fine (e : Crash) (_ : Link) : Prop := e ≠ .nullConn true

instance (f : Link → Link) : Keeps Any Fine (modify f : LinkM PUnit) := keeps_modify fun _ _ => trivial

instance {α : Type} (x : LinkM α) [hx : ∀ l₀, Keeps (Quiet l₀) (Calm l₀) x] : Keeps Any Fine x :=
  ⟨fun l _ => ((hx l).ends l (Quiet.refl l)).imp (fun _ _ _ => trivial) fun _ _ h => h.2⟩

instance {α : Type} : Keeps Any Fine (throw .nullSocket : LinkM α) :=
  keeps_throw fun _ _ h => nomatch h

instance (f : Client → Client) : Keeps Any Fine (modifyClient f) :=
  inferInstanceAs (Keeps _ _ (modify _))

instance (h : Handler) : Keeps Any Fine (post h) := inferInstanceAs (Keeps _ _ (modify _))

instance (s : Socket) : Keeps Any Fine (close s) := inferInstanceAs (Keeps _ _ (modify _))

/-- A teardown simulated after the connection has been used. -/
instance : Keeps Any Fine (useConn false >>= fun _ => disconnectFinalize now) := by
  refine ⟨fun l _ => ?_⟩
  unfold Ends
  cases hconn : l.connSet with
  | true =>
    rw [run_bind_of_ok (useConn_run hconn), disconnectFinalize_run hconn]
    trivial
  | false =>
    rw [run_bind_of_error (useConn_unset hconn)]
    exact fun h => nomatch h

instance : Keeps Any Fine initSocket := by
  unfold initSocket
  infer_instance

instance : Keeps Any Fine (dial now) := by
  unfold dial
  infer_instance

instance : Keeps Any Fine (startConnect now) := by
  unfold startConnect
  dsimp only
  infer_instance

instance (endpoints : Option ℕ) : Keeps Any Fine (resolveHandler now endpoints) := by
  cases endpoints with
  | some n => exact Keeps.bind inferInstance fun _ => inferInstance
  | none =>
    refine ⟨fun l _ => ?_⟩
    unfold Ends resolveHandler
    dsimp only
    cases hconn : l.connSet with
    | true =>
      rw [run_bind_of_ok (useConn_run hconn), run_modify_bind,
        disconnectFinalize_run (l := { l with connecting := false }) hconn]
      trivial
    | false =>
      rw [run_bind_of_error (useConn_unset hconn)]
      exact fun h => nomatch h

instance : Keeps Any Fine connectFailed := by
  unfold connectFailed
  dsimp only
  infer_instance

instance (rt : Runtime) : Keeps Any Fine (login rt now) := by
  unfold login
  infer_instance

instance (rt : Runtime) (hec : Bool) : Keeps Any Fine (connectSucceeded rt now hec) := by
  unfold connectSucceeded
  infer_instance

instance (rt : Runtime) (ec hec : Bool) : Keeps Any Fine (connectHandler rt now ec hec) := by
  unfold connectHandler
  dsimp only
  infer_instance

instance : Keeps Any Fine (checkPending now) := by
  unfold checkPending
  dsimp only
  infer_instance

instance : Keeps Any Fine (checkPleas now) := by
  unfold checkPleas
  infer_instance

instance (aborted : Bool) : Keeps Any Fine (workloopTimerElapsed now aborted) := by
  unfold workloopTimerElapsed
  infer_instance

instance : Keeps Any Fine prepare := by
  unfold prepare
  dsimp only
  infer_instance

instance : Keeps Any Fine connect := by
  unfold connect
  dsimp only
  infer_instance

theorem ne_nullConn {α : Type} {x : LinkM α} [hx : Keeps Any Fine x] {e : Crash}
    (herror : x l = .error e l') : e ≠ .nullConn true := by
  have hends := hx.ends l trivial
  unfold Ends at hends
  rwa [herror] at hends

/-- **Which handlers use an unset connection in a teardown.** -/
theorem handle_nullConn {rt : Runtime} {h : Handler}
    (herror : handle rt now h l = .error (.nullConn true) l') :
    l.connSet = false ∧ (h.kind = .disconnect ∨ h.kind = .disconnectFinalize) := by
  cases h with
  | disconnect =>
    rcases disconnect_error herror with ⟨-, hne, -⟩ | ⟨hconn, -⟩
    · exact nomatch hne
    · exact ⟨hconn, .inl rfl⟩
  | disconnectFinalize => exact ⟨(disconnectFinalize_error herror).1, .inr rfl⟩
  | startConnect => exact absurd rfl (ne_nullConn (x := startConnect now) herror)
  | processResponse jRes => exact absurd rfl (ne_nullConn (x := processFake rt now jRes) herror)
  | resolveHandler endpoints => exact absurd rfl (ne_nullConn (x := resolveHandler now endpoints) herror)
  | connectHandler ec hec => exact absurd rfl (ne_nullConn (x := connectHandler rt now ec hec) herror)
  | workloopTimerElapsed aborted =>
    exact absurd rfl (ne_nullConn (x := workloopTimerElapsed now aborted) herror)
  | onRecvSocketDataCompleted rxMessage =>
    exact absurd rfl (ne_nullConn (x := onRecvSocketDataCompleted rt now rxMessage) herror)
  | onSendSocketDataCompleted ec ssl =>
    exact absurd rfl (ne_nullConn (x := onSendSocketDataCompleted now ec ssl) herror)
  | onSSLShutdownCompleted => exact nomatch herror

theorem callDisconnect_nullConn {c : Crash} (herror : callDisconnect now l = .error c l') :
    l.connSet = false := by
  unfold callDisconnect at herror
  cases hdisconnect : disconnect now l with
  | ok u m =>
    rw [run_tryCatch_of_ok hdisconnect] at herror
    exact nomatch herror
  | error e m =>
    rw [run_tryCatch_of_error hdisconnect] at herror
    rcases disconnect_error hdisconnect with ⟨-, rfl, -⟩ | ⟨hconn, -⟩
    · exact nomatch herror
    · exact hconn

/-- The pool manager calls `disconnect`. -/
def Event.isDisconnect : Event → Bool
  | .disconnect _ => true
  | _ => false

/-- No teardown is left over once the connection is unset, and none is called. -/
def NoTeardownLeft (l : Link) (e : Event) : Prop :=
  l.connSet = false → Kind.disconnect ∉ l.kinds ∧ Kind.disconnectFinalize ∉ l.kinds ∧
    e.isDisconnect = false

instance (l : Link) (e : Event) : Decidable (l.NoTeardownLeft e) :=
  inferInstanceAs (Decidable (_ → _))

/-- **A step that meets the condition does not fail in a teardown.** -/
theorem act_ne_nullConn {rt : Runtime} {e : Event} (hleft : l.NoTeardownLeft e) {c : Crash}
    (herror : act rt e l = .error c l') : c ≠ .nullConn true := by
  rintro rfl
  cases e with
  | run now =>
    unfold act at herror
    dsimp only at herror
    rw [run_get_bind] at herror
    cases hqueue : l.queue with
    | nil =>
      rw [hqueue] at herror
      exact nomatch herror
    | cons h queue =>
      rw [hqueue] at herror
      obtain ⟨hconn, hkind⟩ := handle_nullConn (l := { l with queue := queue }) herror
      obtain ⟨hno, hnofinal, -⟩ := hleft hconn
      have hmem : h.kind ∈ l.kinds := by
        rw [kinds, hqueue, List.map_cons]
        exact List.mem_cons_self
      rcases hkind with hkind | hkind
      · exact hno (hkind ▸ hmem)
      · exact hnofinal (hkind ▸ hmem)
  | connect => exact absurd rfl (ne_nullConn (x := connect) herror)
  | disconnect now =>
    have hconn := callDisconnect_nullConn herror
    exact nomatch (hleft hconn).2.2
  | submitSolution now solution =>
    exact absurd rfl (ne_nullConn (x := call now (submitSolution now solution)) herror)
  | resolved endpoints => exact nomatch herror
  | connected ec hec => exact nomatch herror
  | received rxMessage => exact nomatch herror
  | sent ec ssl => exact nomatch herror
  | shutdownCompleted => exact nomatch herror
  | expired => exact nomatch herror

end Errors

end Link

/-- No teardown has used an unset connection. -/
def LinkRun.TornDownWell (s : LinkRun) : Prop := s.crash ≠ some (.nullConn true)

theorem LinkRun.TornDownWell.next {rt : Runtime} {s : LinkRun} {e : Link.Event}
    (hs : s.TornDownWell) (hleft : s.link.NoTeardownLeft e) : (s.next rt e).TornDownWell := by
  unfold LinkRun.TornDownWell LinkRun.next at *
  cases hcrash : s.crash with
  | some c => rwa [hcrash] at hs ⊢
  | none =>
    dsimp only
    cases hrun : Link.act rt e s.link with
    | ok u l => exact fun h => nomatch h
    | error c l =>
      have hc := Link.act_ne_nullConn hleft hrun
      exact fun h => hc (Option.some.inj h)

/-- **A connection is torn down once.**  In every run of the client `onDisconnected` is raised
at most once.  No step of a teardown uses the connection after it has been unset in a run in
which no teardown is left over when it is unset, and none is posted or called afterwards. -/
theorem torn_down_once (rt : Runtime) (uri : URI) (conn : Conn) (worktimeout responsetimeout now : ℤ)
    (es : List Link.Event) :
    (run (LinkRun.next rt) ⟨.init uri conn worktimeout responsetimeout now, none⟩ es).Running
        (fun l => l.disconnects ≤ 1) ∧
      (Along (LinkRun.next rt) (fun s e => s.link.NoTeardownLeft e)
          ⟨.init uri conn worktimeout responsetimeout now, none⟩ es →
        (run (LinkRun.next rt) ⟨.init uri conn worktimeout responsetimeout now, none⟩ es).TornDownWell) := by
  constructor
  · have hinit : (Link.init uri conn worktimeout responsetimeout now).Surrenders :=
      ⟨Nat.zero_le 1, fun _ => rfl⟩
    intro hcrash
    exact (LinkRun.inv_of_moves hinit (fun l e l' hl hmove => hl.move hmove) es hcrash).once
  · intro hleft
    have hinit : LinkRun.TornDownWell ⟨.init uri conn worktimeout responsetimeout now, none⟩ :=
      fun h => nomatch h
    exact Along.run_inv hinit (fun s e hs hP => hs.next hP) hleft

section TwoDisconnects

/-- A pool that sends messages of another version of JSON-RPC. -/
def invalidRuntime : Runtime where
  parse _ := some (.obj [("jsonrpc".toList, .text "1.0")])
  valueToString _ := []
  lexicalCast _ := []
  toDouble q := q
  projectNameWithVersion := []

/-- A client that is about to connect to `stratum+tcp://user@127.0.0.1:4444`. -/
def plainLink : Link :=
  .init
    { uri := "stratum+tcp://user@127.0.0.1:4444".toList
      scheme := ⟨.stratum, .none, 0⟩
      host := "127.0.0.1".toList
      port := 4444
      hostType := .ipv4 }
    { stratumMode := 999, user := "user".toList } 180 2 0

/-- The client connects, and receives two invalid lines in one transmission. -/
def twoDisconnects : List Link.Event :=
  [.connect, .run 0, .run 0, .connected false false, .run 0, .received (some "a\na\n".toList), .run 0,
    .run 0, .run 0]

/-- **The second of two disconnects uses the connection that the first has given back.** -/
theorem twoDisconnects_nullConn :
    (run (LinkRun.next invalidRuntime) ⟨plainLink, none⟩ (twoDisconnects.take 8)).crash = none ∧
      (run (LinkRun.next invalidRuntime) ⟨plainLink, none⟩ (twoDisconnects.take 8)).link.disconnects = 1 ∧
      (run (LinkRun.next invalidRuntime) ⟨plainLink, none⟩ twoDisconnects).crash =
        some (.nullConn true) := by
  decide +kernel

/-- One invalid line: the connection is torn down, and what is left in the queue does
nothing. -/
def oneDisconnect : List Link.Event :=
  [.connect, .run 0, .run 0, .connected false false, .run 0, .received (some "a\n".toList), .run 0,
    .run 0, .run 0, .run 0, .run 0]

/-- `torn_down_once` at `oneDisconnect`. -/
theorem torn_down_once_oneDisconnect :
    Along (LinkRun.next invalidRuntime) (fun s e => s.link.NoTeardownLeft e) ⟨plainLink, none⟩
        oneDisconnect ∧
      (run (LinkRun.next invalidRuntime) ⟨plainLink, none⟩ oneDisconnect).TornDownWell := by
  have hleft : Along (LinkRun.next invalidRuntime) (fun s e => s.link.NoTeardownLeft e)
      ⟨plainLink, none⟩ oneDisconnect := by
    decide +kernel
  exact ⟨hleft, (torn_down_once invalidRuntime _ _ 180 2 0 oneDisconnect).2 hleft⟩

end TwoDisconnects

end Stratum
end EtcMiner
