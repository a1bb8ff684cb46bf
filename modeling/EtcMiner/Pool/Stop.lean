/-
# Stopping the pool manager

`PoolManager::stop` (`libpool/PoolManager.cpp`) disconnects a client that is connected, and
otherwise stops the timers and the farm.  `m_stopping` is read in one place, the
`onDisconnected` handler.  What is under way besides goes on: a `rotateConnect` or an expiry of
the reconnect timer that waits in the `io_service`, and the client, which `stop` leaves alone
while it connects (`connectingRun`) and which may go on with the next mode when it is told to
disconnect.

Stopping is final if none of that is under way (`Settled`): nothing has been posted, and the
client has not begun, has given its connection back, or is connected in a mode that stands,
with the miners at work.  Then no later step selects a connection, calls `connect`, makes an
attempt or starts the farm (`stop_is_final`), unless the farm is restarted from outside.
-/

import EtcMiner.Pool.Moves
import EtcMiner.Stratum.Resting

namespace EtcMiner
namespace Pool

open Common Eth Ethash Lib Stratum

/-- A call of the stratum client with the handlers it has called. -/
def returned (x : LinkM Unit) (l : Link) : Option (Link × List Callback) :=
  match x { l with raised := [] } with
  | .ok _ l' => some (l', l'.raised)
  | .error _ _ => none

/-- The steps of the stratum client that are calls of the pool manager. -/
def isManagerCall : Link.Event → Bool
  | .connect | .disconnect _ | .submitSolution _ _ => true
  | _ => false

/-- `EthStratumClient`. -/
def stratumClient (rt : Runtime) (worktimeout responsetimeout : ℤ) : PoolClient Link ℤ Link.Event where
  create now uri conn := .init uri conn worktimeout responsetimeout now
  conn l := l.client.conn
  isConnected := Link.isConnected
  connect _ := returned Link.connect
  disconnect now := returned (Link.disconnect now)
  submitSolution now solution := returned (Link.call now (Stratum.submitSolution now solution))
  act e l := if isManagerCall e then some (l, []) else returned (Link.act rt e) l

/-- What `f` does to a client without an attempt to connect. -/
def Unwinds (f : Link → Option (Link × List Callback)) : Prop :=
  ∀ l l' cs, l.Resting → f l = some (l', cs) → l'.Resting ∧ l'.attempts = l.attempts ∧
    (cs = [] ∧ (l.Done → l'.Done) ∧ (l.Mute → l'.Mute) ∨
      (∀ c ∈ cs, c.isQuiet = true) ∧ ¬ l.Mute ∨ cs = [.onDisconnected] ∧ l'.Done ∧ ¬ l.Done)

section Unwinds

theorem returned_eq_some {x : LinkM Unit} {l l' : Link} {cs : List Callback}
    (h : returned x l = some (l', cs)) : ∃ u, x { l with raised := [] } = .ok u l' ∧ cs = l'.raised := by
  unfold returned at h
  split at h
  · next u m hrun =>
    cases h
    exact ⟨u, hrun, rfl⟩
  · exact (nomatch h)

theorem unwinds_of_act (rt : Runtime) {x : LinkM Unit} {e : Link.Event} (he : e.isConnect = false)
    (hx : ∀ l u l', x l = .ok u l' → Link.act rt e l = .ok u l') : Unwinds (returned x) := by
  intro l l' cs hl h
  obtain ⟨u, hrun, rfl⟩ := returned_eq_some h
  have hreset : ({ l with raised := [] } : Link).Resting := { hl with }
  obtain ⟨hresting, hattempts, hcases⟩ := hreset.act rfl he (hx _ u l' hrun)
  have hdone : ({ l with raised := [] } : Link).Done ↔ l.Done := ⟨fun h => { h with }, fun h => { h with }⟩
  have hfresh : ({ l with raised := [] } : Link).Fresh ↔ l.Fresh := ⟨fun h => { h with }, fun h => { h with }⟩
  rw [Link.Mute, hdone, hfresh] at hcases
  exact ⟨hresting, hattempts, hcases⟩

theorem unwinds_disconnect (rt : Runtime) (now : ℤ) : Unwinds (returned (Link.disconnect now)) := by
  refine unwinds_of_act rt (e := .disconnect now) rfl fun l u l' hrun => ?_
  change Link.callDisconnect now l = .ok u l'
  unfold Link.callDisconnect
  exact run_tryCatch_of_ok hrun

theorem unwinds_submitSolution (rt : Runtime) (now : ℤ) (solution : Solution) :
    Unwinds (returned (Link.call now (Stratum.submitSolution now solution))) :=
  unwinds_of_act rt (e := .submitSolution now solution) rfl fun _ _ _ hrun => hrun

theorem unwinds_act (rt : Runtime) (worktimeout responsetimeout : ℤ) (e : Link.Event) :
    Unwinds ((stratumClient rt worktimeout responsetimeout).act e) := by
  intro l l' cs hl h
  change (if isManagerCall e then some (l, []) else returned (Link.act rt e) l) = _ at h
  split_ifs at h with hcall
  · cases h
    exact ⟨hl, rfl, .inl ⟨rfl, id, id⟩⟩
  · have he : e.isConnect = false := by
      cases e <;> first | rfl | exact absurd rfl hcall
    exact unwinds_of_act rt he (fun _ _ _ hrun => hrun) l l' cs hl h

end Unwinds

variable {keccak256 : Hash 8 → Hash 8}

/-- `Farm::start()`. -/
def FarmCall.isStart : FarmCall → Bool
  | .start => true
  | _ => false

namespace PoolManager

/-- Nothing that leads to a new attempt is under way: no task has been posted, and the client has
given its connection back, has not begun, or is connected for good with the miners at
work. -/
structure Settled (m : PoolManager keccak256 Link) : Prop where
  rotate : Task.rotateConnect ∉ m.tasks
  reconnect : m.running = true → Task.reconnecttimerElapsed ∉ m.tasks
  client : ∀ c, m.client = some c → c.impl.Resting ∧
    (c.impl.isConnected = false ∧ (c.impl.Done ∨ m.running = true ∧ c.impl.Fresh) ∨
      c.impl.isConnected = true ∧ m.running = true ∧ m.mining = true ∧ m.reconnecttimer = false)

/-- The manager is stopped once more, or the farm is restarted. -/
def Event.restarts : Event ℤ Link.Event → Bool
  | .stop _ | .minerRestart => true
  | _ => false

/-- How often the farm was started. -/
def starts (m : PoolManager keccak256 Link) : ℕ := m.farm.countP FarmCall.isStart

/-- Since `m₀` nothing was started, and nothing will be. -/
structure Halted (m₀ m : PoolManager keccak256 Link) : Prop where
  rotate : Task.rotateConnect ∉ m.tasks
  reconnect : m.running = true → Task.reconnecttimerElapsed ∉ m.tasks ∧ m.reconnecttimer = false
  silent : m.stopping = true ∨ ∀ c, m.client = some c → c.impl.Done
  client : ∀ c, m.client = some c → c.impl.Resting ∧ (c.impl.Mute ∨ m.mining = true) ∧
    ∃ c₀, m₀.client = some c₀ ∧ c.impl.attempts = c₀.impl.attempts
  selected : m.selected = m₀.selected
  connects : m.connects = m₀.connects
  starts : m.starts = m₀.starts

variable {m₀ m m' : PoolManager keccak256 Link} {pc : PoolClient Link ℤ Link.Event}

/-- A call of the farm that is not a start. -/
theorem Halted.callFarm {c : FarmCall} (hc : c.isStart = false)
    (hmining : m.mining = true → c.mining m.mining = true ∨ ∀ s, m.client = some s → s.impl.Mute)
    (h : Halted m₀ m) : Halted m₀
      { m with mining := c.mining m.mining, paused := c.paused m.paused, farm := m.farm ++ [c] } := by
  refine { h with client := fun s hs => ?_, starts := ?_ }
  · obtain ⟨hresting, hmute, hattempts⟩ := h.client s hs
    refine ⟨hresting, ?_, hattempts⟩
    rcases hmute with hmute | hon
    · exact .inl hmute
    · exact (hmining hon).symm.imp_left fun hall => hall s hs
  · rw [← h.starts]
    simp [PoolManager.starts, hc]

section Callbacks

/-- The miners are at work. -/
def Busy (m₀ m : PoolManager keccak256 Link) : Prop := Halted m₀ m ∧ m.mining = true

theorem Busy.callFarm {c : FarmCall} (hc : c.isStart = false) (hmining : c.mining true = true)
    (h : Busy m₀ m) : Busy m₀
      { m with mining := c.mining m.mining, paused := c.paused m.paused, farm := m.farm ++ [c] } := by
  have hon : c.mining m.mining = true := h.2.symm ▸ hmining
  exact ⟨h.1.callFarm hc fun _ => .inl hon, hon⟩

/-- A client that becomes connected finds the farm started. -/
instance : Preserves (Busy m₀) (onConnected : ManagerM keccak256 Link Unit) := by
  constructor
  rintro m ⟨h, hmining⟩
  unfold onConnected
  rw [ends_bind, ends_modify, ends_bind, ends_get]
  dsimp only
  rw [if_neg (not_not.2 hmining)]
  have hbusy : Busy m₀ m := ⟨h, hmining⟩
  split_ifs
  · obtain ⟨hresumed, hon⟩ := hbusy.callFarm (c := .resume) rfl rfl
    exact ⟨{ hresumed with }, hon⟩
  · exact ⟨{ h with }, hmining⟩

instance (c : Serving Link) (work : WorkHandler keccak256) (newWp : Option WorkPackage) :
    Preserves (Busy m₀) (deliver c work newWp) := by
  refine Keeps.bind (keeps_modify fun m h => ⟨{ h.1 with }, h.2⟩) fun _ => ?_
  cases newWp with
  | none => exact inferInstanceAs (Keeps _ _ (pure ()))
  | some w => exact keeps_modify fun m h => h.callFarm rfl rfl

instance (w : WorkPackage) : Preserves (Busy m₀) (workReceived pc w : ManagerM keccak256 Link Unit) := by
  refine Keeps.bind inferInstance fun m => ?_
  cases m.client <;> dsimp only <;> infer_instance

/-- What a client calls while it keeps its connection. -/
theorem handleAll_busy {cs : List Callback} (hcs : ∀ c ∈ cs, c.isQuiet = true) :
    Preserves (Busy m₀) (handleAll pc cs : ManagerM keccak256 Link Unit) := by
  induction cs with
  | nil => exact inferInstanceAs (Keeps _ _ (pure ()))
  | cons c cs ih =>
    have hhandle : Preserves (Busy m₀) (handle pc c : ManagerM keccak256 Link Unit) := by
      cases c with
      | onDisconnected => exact (nomatch hcs _ List.mem_cons_self)
      | _ => unfold handle; infer_instance
    exact hhandle.bind fun _ => ih fun c hc => hcs c (List.mem_cons_of_mem _ hc)

theorem Halted.unset (h : Halted m₀ m) (hstopping : m.stopping = true) :
    Halted m₀ { m with client := m.client.map fun c => { c with connection := none } } := by
  refine { h with silent := .inl hstopping, client := fun c hc => ?_ }
  obtain ⟨c', hc', rfl⟩ := Option.map_eq_some_iff.1 hc
  exact h.client c' hc'

/-- The client that gives its connection back while the manager stops stays the last one. -/
theorem onDisconnected_halted (h : Halted m₀ m) (hstopping : m.stopping = true)
    (hdone : ∀ c, m.client = some c → c.impl.Done) : Halted m₀ (final onDisconnected m) := by
  unfold onDisconnected
  rw [final_modify_bind, final_get_bind]
  dsimp only
  rw [if_pos hstopping]
  have hunset := h.unset hstopping
  split_ifs
  · refine { hunset.callFarm (c := .stop) rfl fun _ => .inr fun c hc => ?_ with reconnect := nofun }
    obtain ⟨c', hc', rfl⟩ := Option.map_eq_some_iff.1 hc
    exact .inr (hdone c' hc')
  · exact { hunset with reconnect := nofun }

/-- **A call of a client without an attempt to connect.** -/
theorem call_halted {f : Link → Option (Link × List Callback)} (hf : Unwinds f) :
    Preserves (Halted m₀) (call pc f : ManagerM keccak256 Link Unit) := by
  constructor
  intro m h
  unfold call
  rw [ends_bind, ends_get]
  split
  · exact h
  next c hc =>
  split
  · exact h
  next impl cs hcall =>
  rw [ends_bind, ends_modify]
  obtain ⟨hresting, hmute, c₀, hc₀, hattempts⟩ := h.client c hc
  obtain ⟨hresting', hattempts', hcases⟩ := hf _ _ _ hresting hcall
  have hstored (hsilent : m.stopping = true ∨ impl.Done) (hmute' : impl.Mute ∨ m.mining = true) :
      Halted m₀ (stored pc c impl m) := by
    refine { h with silent := hsilent.imp_right fun hdone s hs => ?_, client := fun s hs => ?_ }
    · cases hs
      exact hdone
    · cases hs
      exact ⟨hresting', hmute', c₀, hc₀, hattempts'.trans hattempts⟩
  rcases hcases with ⟨rfl, hdone, hmute'⟩ | ⟨hquiet, hnot⟩ | ⟨rfl, hdone, hnot⟩
  · exact hstored (h.silent.imp_right fun hd => hdone (hd c hc)) (hmute.imp_left hmute')
  · have hmining : m.mining = true := hmute.resolve_left hnot
    have hstopping : m.stopping = true := h.silent.resolve_right fun hd => hnot (.inr (hd c hc))
    have hbusy : Busy m₀ (stored pc c impl m) := ⟨hstored (.inl hstopping) (.inr hmining), hmining⟩
    exact ((handleAll_busy hquiet).ends _ hbusy).imp (fun _ _ h => h.1) fun _ _ h => h.1
  · have hstopping : m.stopping = true := h.silent.resolve_right fun hd => hnot (hd c hc)
    change Ends (onDisconnected >>= fun _ => pure ()) _ _ _
    simp only [ends_bind, ends_pure]
    refine ends_iff_final.2 (onDisconnected_halted (hstored (.inl hstopping) (.inl (.inr hdone))) hstopping ?_)
    intro s hs
    cases hs
    exact hdone

end Callbacks

section Calls

variable {rt : Runtime} {worktimeout responsetimeout : ℤ}

theorem Halted.of_final {x : ManagerM keccak256 Link Unit} (h : Halted m₀ m) (hx : Preserves (Halted m₀) x) :
    Halted m₀ (final x m) :=
  ends_iff_final.1 (hx.ends m h)

theorem disconnect_halted (t : ℤ) : Preserves (Halted m₀)
    (disconnect (stratumClient rt worktimeout responsetimeout) t : ManagerM keccak256 Link Unit) :=
  call_halted (unwinds_disconnect rt t)

theorem switchTo_halted (t : ℤ) (idx : ℕ) : Preserves (Halted m₀)
    (switchTo (stratumClient rt worktimeout responsetimeout) t idx : ManagerM keccak256 Link Unit) :=
  Keeps.bind (keeps_modify fun _ h => { h with }) fun _ => disconnect_halted t

theorem setActiveConnectionCommon_halted (t : ℤ) (idx : ℕ) : Preserves (Halted m₀)
    (setActiveConnectionCommon (stratumClient rt worktimeout responsetimeout) t idx :
      ManagerM keccak256 Link Unit) := by
  refine Keeps.bind inferInstance fun m => ?_
  split_ifs
  · infer_instance
  · exact Keeps.bind (keeps_modify fun _ h => { h with }) fun _ => switchTo_halted t idx
  · exact Keeps.bind (keeps_modify fun _ h => { h with }) fun _ => keeps_modify fun _ h => { h with }

/-- A task that waits is the handler of a timer that has nothing to do, or the failover. -/
theorem perform_halted {task : Task} {ts : List Task} (t : ℤ) (h : Halted m₀ m) (hm : m.tasks = task :: ts) :
    Halted m₀ (final (perform (stratumClient rt worktimeout responsetimeout) t task) { m with tasks := ts }) := by
  have hsub {t : Task} (ht : t ∈ ts) : t ∈ m.tasks := hm ▸ List.mem_cons_of_mem _ ht
  have hpop : Halted m₀ { m with tasks := ts } :=
    { h with
      rotate := fun ht => h.rotate (hsub ht)
      reconnect := fun hrun => ⟨fun ht => (h.reconnect hrun).1 (hsub ht), (h.reconnect hrun).2⟩ }
  cases task with
  | rotateConnect => exact absurd (hm ▸ List.mem_cons_self) h.rotate
  | failovertimerElapsed =>
    refine hpop.of_final (Keeps.bind inferInstance fun m => ?_)
    split_ifs
    · exact switchTo_halted t 0
    · infer_instance
  | reconnecttimerElapsed =>
    have hstopped : ¬ m.running = true := fun hrun => (h.reconnect hrun).1 (hm ▸ List.mem_cons_self)
    change Halted m₀ (final (reconnecttimerElapsed _ t) _)
    unfold reconnecttimerElapsed
    rw [final_get_bind, if_neg fun hrun => hstopped hrun.1]
    exact hpop

theorem Halted.post {task : Task} (h : Halted m₀ m) (hrotate : task ≠ .rotateConnect)
    (hreconnect : m.running = true → task ≠ .reconnecttimerElapsed) :
    Halted m₀ { m with tasks := m.tasks ++ [task] } := by
  refine { h with rotate := fun hmem => ?_, reconnect := fun hrun => ⟨fun hmem => ?_, (h.reconnect hrun).2⟩ }
  · rcases List.mem_append.1 hmem with hmem | hmem
    · exact h.rotate hmem
    · exact hrotate (List.mem_singleton.1 hmem).symm
  · rcases List.mem_append.1 hmem with hmem | hmem
    · exact (h.reconnect hrun).1 hmem
    · exact hreconnect hrun (List.mem_singleton.1 hmem).symm

/-- A timer expires.  The reconnect timer is off as long as the manager runs. -/
theorem expired_halted (h : Halted m₀ m) :
    Halted m₀ (final (act (stratumClient rt worktimeout responsetimeout) .failoverExpired) m) ∧
      Halted m₀ (final (act (stratumClient rt worktimeout responsetimeout) .reconnectExpired) m) := by
  constructor
  · unfold act
    rw [final_get_bind]
    split_ifs
    · have hoff : Halted m₀ { m with failovertimer := false } := { h with }
      exact hoff.post nofun nofun
    · exact h
  · unfold act
    rw [final_get_bind]
    split_ifs with htimer
    · have hoff : Halted m₀ { m with reconnecttimer := false } :=
        { h with reconnect := fun hrun => ⟨(h.reconnect hrun).1, rfl⟩ }
      exact hoff.post nofun fun hrun => (nomatch htimer.symm.trans (h.reconnect hrun).2)
    · exact h

/-- The client is destroyed. -/
theorem stopped_halted (h : Halted m₀ m) : Halted m₀ (final stopped m) := by
  unfold stopped
  rw [final_get_bind]
  split_ifs
  · refine { h with silent := .inr fun c hc => ?_, client := fun c hc => ?_ }
    · exact (nomatch hc)
    · exact (nomatch hc)
  · exact h

/-- **A step after the stop.** -/
theorem act_halted {e : Event ℤ Link.Event} (he : e.restarts = false) (h : Halted m₀ m) :
    Halted m₀ (final (act (stratumClient rt worktimeout responsetimeout) e) m) := by
  cases e with
  | task t =>
    unfold act
    rw [final_get_bind]
    split
    · exact h
    · next task ts hts =>
      rw [final_modify_bind]
      exact perform_halted t h hts
  | client e =>
    refine h.of_final (Keeps.bind inferInstance fun m => ?_)
    split_ifs
    · exact call_halted (unwinds_act rt worktimeout responsetimeout e)
    · infer_instance
  | failoverExpired => exact (expired_halted h).1
  | reconnectExpired => exact (expired_halted h).2
  | addConnection c => exact { h with }
  | removeConnection idx =>
    refine h.of_final (Keeps.bind inferInstance fun m => ?_)
    split_ifs
    · infer_instance
    · infer_instance
    · infer_instance
    · exact keeps_modify fun _ h => { h with }
  | setActiveConnection t idx =>
    refine h.of_final (Keeps.bind inferInstance fun m => ?_)
    split_ifs
    · infer_instance
    · exact setActiveConnectionCommon_halted t idx
  | setActiveConnectionString t connstring =>
    refine h.of_final (Keeps.bind inferInstance fun m => ?_)
    split
    · exact setActiveConnectionCommon_halted t _
    · infer_instance
  | solutionFound t solution =>
    refine h.of_final (Keeps.bind inferInstance fun m => ?_)
    split_ifs
    · exact Keeps.bind (keeps_modify fun _ h => { h with }) fun _ =>
        call_halted (unwinds_submitSolution rt t solution)
    · infer_instance
  | stop t => exact (nomatch he)
  | stopped => exact stopped_halted h
  | minerRestart => exact (nomatch he)

theorem isConnected_of_client {c : Serving Link} (hc : m.client = some c) :
    m.isConnected (stratumClient rt worktimeout responsetimeout) = c.impl.isConnected := by
  rw [isConnected, hc]
  rfl

/-- **The stop** of a manager with nothing under way. -/
theorem Settled.stop (hm : m.Settled) (t : ℤ) :
    Halted m (final (stop (stratumClient rt worktimeout responsetimeout) t) m) := by
  unfold PoolManager.stop
  rw [final_get_bind]
  split_ifs with hrun
  · rw [final_modify_bind, final_get_bind]
    split_ifs with hconn
    · have hclient {c : Serving Link} (hc : m.client = some c) : c.impl.Resting ∧ m.mining = true ∧
          m.reconnecttimer = false := by
        have hconnected : c.impl.isConnected = true := (isConnected_of_client hc).symm.trans hconn
        obtain ⟨hresting, ⟨hnot, -⟩ | ⟨-, -, hmining, htimer⟩⟩ := hm.client c hc
        · exact (nomatch hnot.symm.trans hconnected)
        · exact ⟨hresting, hmining, htimer⟩
      obtain ⟨c, hc⟩ : ∃ c, m.client = some c := by
        cases hnone : m.client with
        | none =>
          rw [isConnected, hnone] at hconn
          exact (nomatch hconn)
        | some c => exact ⟨c, rfl⟩
      have hstopping : Halted m { m with asyncPending := true, stopping := true } :=
        ⟨hm.rotate, fun _ => ⟨hm.reconnect hrun, (hclient hc).2.2⟩, .inl rfl,
          fun c hc => ⟨(hclient hc).1, .inr (hclient hc).2.1, c, hc, rfl⟩, rfl, rfl, rfl⟩
      exact hstopping.of_final ((disconnect_halted t).bind fun _ => keeps_modify fun _ h => { h with })
    · have hmute (c : Serving Link) (hc : m.client = some c) : c.impl.Resting ∧ c.impl.Mute := by
        have hnot : ¬ c.impl.isConnected = true := fun h => hconn ((isConnected_of_client hc).trans h)
        obtain ⟨hresting, ⟨-, hdone | ⟨-, hfresh⟩⟩ | ⟨hconnected, -⟩⟩ := hm.client c hc
        · exact ⟨hresting, .inr hdone⟩
        · exact ⟨hresting, .inl hfresh⟩
        · exact absurd hconnected hnot
      have hstopping : Halted m { m with
          asyncPending := true, stopping := true, failovertimer := false, reconnecttimer := false } :=
        ⟨hm.rotate, fun _ => ⟨hm.reconnect hrun, rfl⟩, .inl rfl,
          fun c hc => ⟨(hmute c hc).1, .inl (hmute c hc).2, c, hc, rfl⟩, rfl, rfl, rfl⟩
      rw [final_modify_bind, final_get_bind]
      split_ifs
      · exact hstopping.callFarm rfl fun _ => .inr fun c hc => (hmute c hc).2
      · exact hstopping
  · have hdone (c : Serving Link) (hc : m.client = some c) : c.impl.Resting ∧ c.impl.Done := by
      obtain ⟨hresting, ⟨-, hdone | ⟨hrun', -⟩⟩ | ⟨-, hrun', -⟩⟩ := hm.client c hc
      · exact ⟨hresting, hdone⟩
      · exact absurd hrun' hrun
      · exact absurd hrun' hrun
    exact ⟨hm.rotate, fun hrun' => absurd hrun' hrun, .inr fun c hc => (hdone c hc).2,
      fun c hc => ⟨(hdone c hc).1, .inl (.inr (hdone c hc).2), c, hc, rfl⟩, rfl, rfl, rfl⟩

end Calls

end PoolManager

/-- **Stopping is final**, if nothing that leads to an attempt is under way: after it no
connection is selected, `connect` is not called, the client makes no attempt, and the farm is
not started. -/
theorem stop_is_final (rt : Runtime) (worktimeout responsetimeout : ℤ) (m : PoolManager keccak256 Link)
    (hm : m.Settled) (t : ℤ) (es : List (PoolManager.Event ℤ Link.Event))
    (hes : ∀ e ∈ es, e.restarts = false) :
    let m' := (run (ManagerRun.next (stratumClient rt worktimeout responsetimeout)) ⟨m, false⟩
      (.stop t :: es)).manager
    m'.selected = m.selected ∧ m'.connects = m.connects ∧ m'.starts = m.starts ∧
      ∀ c, m'.client = some c → ∃ c₀, m.client = some c₀ ∧ c.impl.attempts = c₀.impl.attempts := by
  intro m'
  have hstep (s : ManagerRun keccak256 Link) (e : PoolManager.Event ℤ Link.Event)
      (hs : PoolManager.Halted m s.manager) (he : e.restarts = false) :
      PoolManager.Halted m (s.next (stratumClient rt worktimeout responsetimeout) e).manager := by
    unfold ManagerRun.next
    split_ifs
    · exact hs
    · exact PoolManager.act_halted he hs
  have hhalted : PoolManager.Halted m m' :=
    @Along.run_inv _ _ _ (fun _ e => e.restarts = false) _
      (fun s : ManagerRun keccak256 Link => PoolManager.Halted m s.manager) (hm.stop t) hstep es
      (along_of_mem fun e he _ => hes e he)
  exact ⟨hhalted.selected, hhalted.connects, hhalted.starts, fun c hc => (hhalted.client c hc).2.2⟩

/-- A manager with one stratum connection, by a host name, in the mode of its scheme. -/
def stratumManager : PoolManager countingKeccak Link :=
  .started {} [⟨0, {
    uri := "stratum1+tcp://user@pool.example:4444".toList
    scheme := ⟨.stratum, .none, 1⟩
    host := "pool.example".toList
    port := 4444
    hostType := .dns }⟩] (fun _ => { stratumMode := 999, user := "user".toList }) .init

/-- The client connects to its host. -/
def connectedRun : List (PoolManager.Event ℤ Link.Event) :=
  [.minerRestart, .task 0, .client (.resolved (some 1)), .client (.run 0), .client (.run 0),
    .client (.run 0), .client (.connected false false), .client (.run 0)]

/-- A client that is connected is stopped; its socket is plain and closed at once. -/
theorem stop_is_final_connectedRun :
    let next := ManagerRun.next (stratumClient silentRuntime 180 2)
    let m := (run next ⟨stratumManager, false⟩ connectedRun).manager
    let m' := (run next ⟨m, false⟩ [.stop 0, .client (.run 0), .client (.run 0)]).manager
    m.isConnected (stratumClient silentRuntime 180 2) = true ∧ m'.running = false ∧ m'.starts = m.starts := by
  intro next m
  have hclient : (m.client.all fun c => decide c.impl.Resting && c.impl.isConnected) = true := by decide +kernel
  have hsettled : m.Settled := by
    refine ⟨by decide +kernel, by decide +kernel, fun c hc => ?_⟩
    rw [hc] at hclient
    obtain ⟨hresting, hconnected⟩ := Bool.and_eq_true_iff.1 hclient
    exact ⟨of_decide_eq_true hresting, .inr ⟨hconnected, by decide +kernel, by decide +kernel, by decide +kernel⟩⟩
  refine ⟨by decide +kernel, by decide +kernel, ?_⟩
  exact (stop_is_final silentRuntime 180 2 m hsettled 0 _ (by simp [PoolManager.Event.restarts])).2.2.1

/-- The client is stopped when it has asked for the address of its host.  It makes an attempt to
connect when it gets it. -/
theorem connectingRun :
    let next := ManagerRun.next (stratumClient silentRuntime 180 2)
    let s := run next ⟨stratumManager, false⟩ [.task 0]
    let s' := run next s [.stop 0, .client (.resolved (some 1)), .client (.run 0), .client (.run 0),
      .client (.run 0)]
    (s.manager.client.map fun c => c.impl.attempts) = some 0 ∧ s'.manager.stopping = true ∧
      (s'.manager.client.map fun c => c.impl.attempts) = some 1 := by
  decide +kernel

end Pool
end EtcMiner
