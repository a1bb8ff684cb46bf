/-
# What a step of the pool manager can do

The handlers that a client calls, the timers, and the calls of the farm leave the list of
connections and the place in it alone (`Served`).  What moves them is listed in `Move`: the
calls from outside, a switch of the connection, and `rotateConnect`, which stays with a
client that is connected, finds no connection to try, or selects one.  `act_move` says that
this is all; the invariants of the manager are proved from the list, not from the code.

`routed` is the manager of `rotateConnect` just before a connection is chosen.
-/

import EtcMiner.Pool.PoolManager

namespace EtcMiner
namespace Pool

open Common Eth Ethash Lib

variable {keccak256 : Hash 8 → Hash 8} {γ τ ε : Type}

namespace Course

/-- The index is within bounds.  That of an empty list is zero. -/
def Bounded (k : Course) : Prop := k.activeConnectionIdx = 0 ∨ k.activeConnectionIdx < k.connections.length

variable {k : Course}

@[simp] theorem connections_checkBounds (k : Course) : k.checkBounds.connections = k.connections := by
  unfold checkBounds
  split_ifs <;> rfl

@[simp] theorem connectionAttempt_checkBounds (k : Course) :
    k.checkBounds.connectionAttempt = k.connectionAttempt := by
  unfold checkBounds
  split_ifs <;> rfl

theorem activeConnectionIdx_checkBounds (k : Course) : k.checkBounds.activeConnectionIdx =
    if k.connections.length ≤ k.activeConnectionIdx then 0 else k.activeConnectionIdx := by
  unfold checkBounds
  split_ifs <;> rfl

theorem bounded_checkBounds (k : Course) : k.checkBounds.Bounded := by
  unfold checkBounds
  split_ifs with h
  · exact .inl rfl
  · exact .inr (Nat.lt_of_not_le h)

/-- Only an empty list has no active connection. -/
theorem Bounded.eq_nil (hk : k.Bounded) (hnone : k.getActiveConnection = none) : k.connections = [] := by
  rw [getActiveConnection, List.getElem?_eq_none_iff] at hnone
  rcases hk with hzero | hlt
  · exact List.eq_nil_of_length_eq_zero (by omega)
  · omega

end Course

/-- If the call sets a package, it comes from the connection `k`. -/
def FarmCall.IsFrom (k : Option Connection) : FarmCall → Prop
  | .setWork source _ => source = k
  | _ => True

namespace PoolManager

/-- A return to the first connection is due: the timer runs, or its handler waits. -/
def Failover (m : PoolManager keccak256 γ) : Prop :=
  m.failovertimer = true ∨ Task.failovertimerElapsed ∈ m.tasks

/-- The connection of the client. -/
def connection (m : PoolManager keccak256 γ) : Option Connection := m.client.bind Serving.connection

/-- The calls of the farm since `m`.  Their packages come from the connection of the client,
which stays, or may be unset on the way. -/
def Calls (m m' : PoolManager keccak256 γ) : Prop :=
  ∃ cs, m'.farm = m.farm ++ cs ∧
    (m'.connection = m.connection ∧ (∀ c ∈ cs, c.IsFrom m.connection) ∨
      m'.connection = none ∧ ∀ c ∈ cs, c.IsFrom m.connection ∨ c.IsFrom none)

/-- What the handlers of the manager leave alone, and what they do to the rest if no client
becomes connected. -/
structure Served (m m' : PoolManager keccak256 γ) : Prop where
  settings : m'.settings = m.settings
  connections : m'.connections = m.connections
  activeConnectionIdx : m'.activeConnectionIdx = m.activeConnectionIdx
  selected : m'.selected = m.selected
  rotations : m'.rotations = m.rotations
  sigterms : m'.sigterms = m.sigterms
  running : m'.running = true → m.running = true
  sessions : m.sessions ≤ m'.sessions
  connectionAttempt : m'.sessions = m.sessions → m'.connectionAttempt = m.connectionAttempt
  failover : m'.sessions = m.sessions → m'.Failover → m.Failover
  serving : m'.dismissed = true ∨ m'.client = none ∨
    m'.dismissed = m.dismissed ∧ m'.client.map Serving.connection = m.client.map Serving.connection
  submitted : m'.submitted = m.submitted
  calls : Calls m m'

/-- The handlers throw nothing that a caller could catch. -/
def Crashed (m : PoolManager keccak256 γ) (f : Failure) (m' : PoolManager keccak256 γ) : Prop :=
  f = .crash ∧ Served m m'

variable {m₀ m m' : PoolManager keccak256 γ} {pc : PoolClient γ τ ε}

theorem Calls.refl (m : PoolManager keccak256 γ) : Calls m m :=
  ⟨[], (List.append_nil _).symm, .inl ⟨rfl, fun _ hc => absurd hc List.not_mem_nil⟩⟩

/-- One more call, for a package of the client. -/
theorem Calls.append {c : FarmCall} (h : Calls m₀ m) (hfarm : m'.farm = m.farm ++ [c])
    (hconn : m'.connection = m.connection) (hc : c.IsFrom m.connection) : Calls m₀ m' := by
  obtain ⟨cs, hcs, hfrom⟩ := h
  refine ⟨cs ++ [c], by rw [hfarm, hcs, List.append_assoc], ?_⟩
  rw [hconn]
  rcases hfrom with ⟨hsame, hall⟩ | ⟨hnone, hall⟩
  · rw [hsame] at hc
    exact .inl ⟨hsame, List.forall_mem_append.2 ⟨hall, List.forall_mem_singleton.2 hc⟩⟩
  · rw [hnone] at hc
    exact .inr ⟨hnone, List.forall_mem_append.2 ⟨hall, List.forall_mem_singleton.2 (.inr hc)⟩⟩

/-- The connection is unset. -/
theorem Calls.unset (h : Calls m₀ m) (hfarm : m'.farm = m.farm) (hnone : m'.connection = none) :
    Calls m₀ m' := by
  obtain ⟨cs, hcs, hfrom⟩ := h
  refine ⟨cs, hfarm.trans hcs, .inr ⟨hnone, fun c hc => ?_⟩⟩
  rcases hfrom with ⟨-, hall⟩ | ⟨-, hall⟩
  · exact .inl (hall c hc)
  · exact hall c hc

theorem Calls.trans (h : Calls m₀ m) (h' : Calls m m') : Calls m₀ m' := by
  obtain ⟨cs, hcs, hfrom⟩ := h
  obtain ⟨cs', hcs', hfrom'⟩ := h'
  refine ⟨cs ++ cs', by rw [hcs', hcs, List.append_assoc], ?_⟩
  rcases hfrom with ⟨hsame, hall⟩ | ⟨hnone, hall⟩
  · rw [hsame] at hfrom'
    rcases hfrom' with ⟨hsame', hall'⟩ | ⟨hnone', hall'⟩
    · exact .inl ⟨hsame', List.forall_mem_append.2 ⟨hall, hall'⟩⟩
    · exact .inr ⟨hnone', List.forall_mem_append.2 ⟨fun c hc => .inl (hall c hc), hall'⟩⟩
  · rw [hnone] at hfrom'
    rcases hfrom' with ⟨hnone', hall'⟩ | ⟨hnone', hall'⟩
    · exact .inr ⟨hnone', List.forall_mem_append.2 ⟨hall, fun c hc => .inr (hall' c hc)⟩⟩
    · exact .inr ⟨hnone', List.forall_mem_append.2 ⟨hall, fun c hc => .inr ((hall' c hc).elim id id)⟩⟩

/-- As long as the connection is the same, all packages come from it. -/
theorem Calls.isFrom (h : Calls m m') (hsame : m'.connection = m.connection) :
    ∃ cs, m'.farm = m.farm ++ cs ∧ ∀ c ∈ cs, c.IsFrom m.connection := by
  obtain ⟨cs, hcs, ⟨-, hall⟩ | ⟨hnone, hall⟩⟩ := h
  · exact ⟨cs, hcs, hall⟩
  · rw [hsame] at hnone
    rw [hnone] at hall ⊢
    exact ⟨cs, hcs, fun c hc => (hall c hc).elim id id⟩

theorem Served.refl (m : PoolManager keccak256 γ) : Served m m :=
  ⟨rfl, rfl, rfl, rfl, rfl, rfl, id, le_rfl, fun _ => rfl, fun _ h => h, .inr (.inr ⟨rfl, rfl⟩), rfl,
    .refl m⟩

theorem Served.getActiveConnection (h : Served m m') :
    m'.getActiveConnection = m.getActiveConnection := by
  rw [Course.getActiveConnection, h.connections, h.activeConnectionIdx]
  rfl

/-- A task that is posted or taken off the queue is not a return to the first connection. -/
theorem Served.of_tasks {ts : List Task} (h : Served m₀ m)
    (hts : Task.failovertimerElapsed ∈ ts → Task.failovertimerElapsed ∈ m.tasks) :
    Served m₀ { m with tasks := ts } :=
  { h with failover := fun hs hf => h.failover hs (hf.imp_right hts) }

section Handlers

instance : Keeps (Served m₀) (Crashed m₀) (throw .crash : ManagerM keccak256 γ Unit) :=
  keeps_throw fun _ h => ⟨rfl, h⟩

theorem Served.of_callFarm {c : FarmCall} (h : Served m₀ m) (hc : c.IsFrom m.connection) :
    Served m₀ { m with mining := c.mining m.mining, paused := c.paused m.paused, farm := m.farm ++ [c] } :=
  { h with calls := h.calls.append rfl rfl hc }

instance : Keeps (Served m₀) (Crashed m₀) (callFarm .start : ManagerM keccak256 γ Unit) :=
  keeps_modify fun _ h => h.of_callFarm trivial

instance : Keeps (Served m₀) (Crashed m₀) (callFarm .stop : ManagerM keccak256 γ Unit) :=
  keeps_modify fun _ h => h.of_callFarm trivial

instance : Keeps (Served m₀) (Crashed m₀) (callFarm .pause : ManagerM keccak256 γ Unit) :=
  keeps_modify fun _ h => h.of_callFarm trivial

instance : Keeps (Served m₀) (Crashed m₀) (callFarm .resume : ManagerM keccak256 γ Unit) :=
  keeps_modify fun _ h => h.of_callFarm trivial

theorem post_served {t : Task} (ht : t ≠ .failovertimerElapsed) :
    Keeps (Served m₀) (Crashed m₀) (post t : ManagerM keccak256 γ Unit) := by
  refine keeps_modify fun m h => h.of_tasks fun hmem => ?_
  rcases List.mem_append.1 hmem with hmem | hmem
  · exact hmem
  · exact absurd (List.mem_singleton.1 hmem).symm ht

instance : Keeps (Served m₀) (Crashed m₀) (post .rotateConnect : ManagerM keccak256 γ Unit) := post_served nofun

theorem Served.of_connected {work : WorkHandler keccak256} {timer : Bool} (h : Served m₀ m) :
    Served m₀ { m with
      connectionAttempt := 0, work := work, failovertimer := timer, sessions := m.sessions + 1 } := by
  have hlt : m₀.sessions < m.sessions + 1 := Nat.lt_succ_of_le h.sessions
  exact { h with
    sessions := hlt.le
    connectionAttempt := fun heq => absurd heq hlt.ne'
    failover := fun heq => absurd heq hlt.ne' }

theorem Served.of_disconnected {work : WorkHandler keccak256} {client : Option (Serving γ)}
    (h : Served m₀ m) (hclient : client.bind Serving.connection = none) :
    Served m₀ { m with client := client, work := work, failovertimer := false, dismissed := true } :=
  { h with
    failover := fun heq hf => h.failover heq (.inr (hf.resolve_left Bool.false_ne_true))
    serving := .inl rfl
    calls := h.calls.unset rfl hclient }

instance : Keeps (Served m₀) (Crashed m₀) (onConnected : ManagerM keccak256 γ Unit) := by
  unfold onConnected
  dsimp only
  refine Keeps.bind (keeps_modify fun _ h => h.of_connected) fun _ => ?_
  have : Keeps (Served m₀) (Crashed m₀)
      (modify fun m => { m with asyncPending := false } : ManagerM keccak256 γ PUnit) :=
    keeps_modify fun _ h => { h with }
  infer_instance

instance : Keeps (Served m₀) (Crashed m₀) (onDisconnected : ManagerM keccak256 γ Unit) := by
  unfold onDisconnected
  dsimp only
  refine Keeps.bind (keeps_modify fun m h => h.of_disconnected ?_) fun _ => ?_
  · cases m.client <;> rfl
  have hpending : Keeps (Served m₀) (Crashed m₀)
      (modify fun m => { m with asyncPending := true } : ManagerM keccak256 γ PUnit) :=
    keeps_modify fun _ h => { h with }
  have hrunning : Keeps (Served m₀) (Crashed m₀)
      (modify fun m => { m with running := false } : ManagerM keccak256 γ PUnit) :=
    keeps_modify fun _ h => { h with running := nofun }
  infer_instance

/-- A job of the client that is in use. -/
theorem Served.deliver {c : Serving γ} (h : Served m₀ m) (hc : m.client = some c)
    (work : WorkHandler keccak256) (newWp : Option WorkPackage) :
    Ends (deliver c work newWp) m (fun _ => Served m₀) (Crashed m₀) := by
  have hwork : Served m₀ { m with work := work } := { h with }
  unfold PoolManager.deliver
  rw [ends_bind, ends_modify]
  cases newWp with
  | none => exact hwork
  | some newWp => exact hwork.of_callFarm (congrArg (Option.bind · Serving.connection) hc).symm

instance (w : WorkPackage) :
    Keeps (Served m₀) (Crashed m₀) (workReceived pc w : ManagerM keccak256 γ Unit) := by
  constructor
  intro m h
  unfold workReceived
  rw [ends_bind, ends_get]
  split
  · exact h
  · next c hc =>
    split_ifs
    · exact ⟨rfl, h⟩
    · exact ⟨rfl, h⟩
    · exact h.deliver hc _ _

instance (c : Stratum.Callback) :
    Keeps (Served m₀) (Crashed m₀) (handle pc c : ManagerM keccak256 γ Unit) := by
  cases c <;> unfold handle <;> infer_instance

theorem handleAll_served (cs : List Stratum.Callback) :
    Keeps (Served m₀) (Crashed m₀) (handleAll pc cs : ManagerM keccak256 γ Unit) := by
  induction cs with
  | nil => exact inferInstanceAs (Keeps _ _ (pure ()))
  | cons c cs ih => exact Keeps.bind inferInstance fun _ => ih

theorem Served.of_stored {c : Serving γ} {impl : γ} (h : Served m₀ m) (hc : m.client = some c) :
    Served m₀ (stored pc c impl m) := by
  have hcalls : Calls m₀ (stored pc c impl m) := by
    have hconn : (stored pc c impl m).connection = m.connection :=
      (congrArg (Option.bind · Serving.connection) hc).symm
    have hcalls := h.calls
    unfold Calls at hcalls ⊢
    rw [hconn]
    exact hcalls
  refine { h with serving := ?_, calls := hcalls }
  rcases h.serving with hd | hnone | ⟨hd, hmap⟩
  · exact .inl hd
  · rw [hc] at hnone
    exact (nomatch hnone)
  · rw [hc] at hmap
    exact .inr (.inr ⟨hd, hmap⟩)

/-- **A call of the client.** -/
instance (f : γ → Option (γ × List Stratum.Callback)) :
    Keeps (Served m₀) (Crashed m₀) (call pc f : ManagerM keccak256 γ Unit) := by
  constructor
  intro m h
  unfold call
  rw [ends_bind, ends_get]
  split
  · exact ⟨rfl, h⟩
  · next c hc =>
    split
    · exact ⟨rfl, h⟩
    · rw [ends_bind, ends_modify]
      exact (handleAll_served _).ends _ (h.of_stored hc)

end Handlers

/-- `p_client->connect()`. -/
instance (t : τ) : Keeps (Served m₀) (Crashed m₀) (connect pc t : ManagerM keccak256 γ Unit) :=
  Keeps.bind (keeps_modify fun _ h => { h with }) fun _ => inferInstance

/-- `p_client->disconnect()`. -/
instance (t : τ) : Keeps (Served m₀) (Crashed m₀) (disconnect pc t : ManagerM keccak256 γ Unit) :=
  inferInstanceAs (Keeps _ _ (call _ _))

/-- The course from the choice of a connection on: `c` was the active one. -/
def routed (c : Connection) (m : PoolManager keccak256 γ) : Course :=
  (m.toCourse.checkBounds.discard m.settings.connectionMaxRetries (m.conns c.id).unrecoverable).rotate
    m.settings.connectionMaxRetries

/-- `rotateConnect()` up to the choice of a connection. -/
def routing (c : Connection) (m : PoolManager keccak256 γ) : PoolManager keccak256 γ :=
  { m with rotations := m.rotations + 1, toCourse := m.routed c }

/-- Another connection becomes the active one. -/
def switching (idx : ℕ) (m : PoolManager keccak256 γ) : PoolManager keccak256 γ :=
  { m with toCourse := m.toCourse.switch idx, dismissed := true }

/-- A solution goes to the client. -/
def submitting (solution : Solution) (m : PoolManager keccak256 γ) : PoolManager keccak256 γ :=
  { m with submitted := m.submitted ++ [(m.connection, solution)] }

/-- The calls that switch the connection. -/
def Event.switches : Event τ ε → Bool
  | .setActiveConnection _ _ | .setActiveConnectionString _ _ => true
  | _ => false

/-- The step switches the connection: by a call, or as the handler of the failover timer. -/
def Event.switchesIn (m : PoolManager keccak256 γ) : Event τ ε → Bool
  | .task _ => m.tasks.head? = some .failovertimerElapsed
  | e => e.switches

theorem Event.switchesIn_of_switches {e : Event τ ε} (h : e.switches = true) : e.switchesIn m = true := by
  cases e with
  | task t => exact (nomatch h)
  | _ => exact h

theorem Event.switches_or_failover {e : Event τ ε} (h : e.switchesIn m = true) :
    e.switches = true ∨ m.Failover := by
  cases e with
  | task t => exact .inr (.inr (List.mem_of_mem_head? (of_decide_eq_true h)))
  | _ => exact .inl h

/-- What a step can do. -/
inductive Move (pc : PoolClient γ τ ε) (m : PoolManager keccak256 γ) :
    Event τ ε → PoolManager keccak256 γ → Prop where
  | served {e : Event τ ε} {m' : PoolManager keccak256 γ} (h : Served m m') : Move pc m e m'
  | submitted {t : τ} {solution : Solution} {m' : PoolManager keccak256 γ}
    (hconn : m.isConnected pc = true) (h : Served (m.submitting solution) m') :
    Move pc m (.solutionFound t solution) m'
  | added (c : Connection) :
    Move pc m (.addConnection c) { m with connections := m.connections ++ [c] }
  | removed (idx : ℕ) (hlt : idx < m.connections.length) (hne : idx ≠ m.activeConnectionIdx) :
    Move pc m (.removeConnection idx) { m with toCourse := m.toCourse.remove idx }
  | switched {e : Event τ ε} {m' : PoolManager keccak256 γ} (idx : ℕ)
    (hidx : idx < m.connections.length ∨ idx = 0) (hcall : e.switchesIn m = true)
    (h : Served (m.switching idx) m') : Move pc m e m'
  | kept {t : τ} {m' : PoolManager keccak256 γ} (htask : m.tasks.head? = some .rotateConnect) (hconn : m.isConnected pc = true)
    (h : Served { m with rotations := m.rotations + 1 } m') : Move pc m (.task t) m'
  | emptied {t : τ} {m' : PoolManager keccak256 γ} (hnil : m.connections = [])
    (h : Served { m with rotations := m.rotations + 1, activeConnectionIdx := 0 } m') :
    Move pc m (.task t) m'
  | exited {t : τ} {m' : PoolManager keccak256 γ} (c : Connection) (hconn : m.isConnected pc = false)
    (hc : m.toCourse.checkBounds.getActiveConnection = some c)
    (hexit : ∀ c', (m.routed c).getActiveConnection = some c' → c'.uri.host = "exit".toList)
    (h : Served { m.routing c with running := false, sigterms := m.sigterms + 1 } m') : Move pc m (.task t) m'
  | selected {t : τ} {m' : PoolManager keccak256 γ} (c c' : Connection)
    (hconn : m.isConnected pc = false) (hc : m.toCourse.checkBounds.getActiveConnection = some c)
    (hc' : (m.routed c).getActiveConnection = some c') (hhost : c'.uri.host ≠ "exit".toList)
    (h : Served ((m.routing c).selecting pc t c') m') : Move pc m (.task t) m'

theorem Served.trans (h : Served m₀ m) (h' : Served m m') : Served m₀ m' where
  settings := h'.settings.trans h.settings
  connections := h'.connections.trans h.connections
  activeConnectionIdx := h'.activeConnectionIdx.trans h.activeConnectionIdx
  selected := h'.selected.trans h.selected
  rotations := h'.rotations.trans h.rotations
  sigterms := h'.sigterms.trans h.sigterms
  running := h.running ∘ h'.running
  sessions := h.sessions.trans h'.sessions
  connectionAttempt := by
    intro heq
    have h₁ := h.sessions
    have h₂ := h'.sessions
    rw [h'.connectionAttempt (by omega), h.connectionAttempt (by omega)]
  failover := by
    intro heq hf
    have h₁ := h.sessions
    have h₂ := h'.sessions
    exact h.failover (by omega) (h'.failover (by omega) hf)
  serving := by
    rcases h'.serving with hd | hnone | ⟨hd, hmap⟩
    · exact .inl hd
    · exact .inr (.inl hnone)
    · rcases h.serving with hd₀ | hnone | ⟨hd₀, hmap₀⟩
      · exact .inl (hd.trans hd₀)
      · rw [hnone] at hmap
        exact .inr (.inl (Option.map_eq_none_iff.1 hmap))
      · exact .inr (.inr ⟨hd.trans hd₀, hmap.trans hmap₀⟩)
  submitted := h'.submitted.trans h.submitted
  calls := h.calls.trans h'.calls

theorem Served.of_final {x : ManagerM keccak256 γ Unit} (h : Served m₀ m)
    (hx : Keeps (Served m₀) (Crashed m₀) x) : Served m₀ (final x m) :=
  ends_iff_final.1 ((hx.ends m h).imp (fun _ _ h => h) fun _ _ h => h.2)

theorem switchTo_served (t : τ) (idx : ℕ) (m : PoolManager keccak256 γ) :
    Served (m.switching idx) (final (switchTo pc t idx) m) := by
  unfold switchTo
  rw [final_modify_bind]
  exact Served.of_final (.refl (m.switching idx)) inferInstance

theorem switchTo_error {t : τ} {idx : ℕ} {f : Failure} (h : switchTo pc t idx m = .error f m') :
    f = .crash := by
  have hkeeps : Keeps (Served (m.switching idx)) (Crashed (m.switching idx))
    (disconnect pc t : ManagerM keccak256 γ Unit) := inferInstance
  exact (hkeeps.of_error (.refl _) h).1

theorem select_served (t : τ) (c : Connection) (m : PoolManager keccak256 γ) :
    Served (m.selecting pc t c) (final (select pc t c) m) := by
  unfold select
  rw [final_modify_bind, final_get_bind]
  split_ifs
  · exact { Served.refl (m.selecting pc t c) with }
  · exact (Served.refl _).of_final inferInstance

theorem exit_served (m : PoolManager keccak256 γ) :
    Served { m with running := false, sigterms := m.sigterms + 1 } (final exit m) := by
  unfold exit
  rw [final_get_bind]
  split_ifs
  · exact { (Served.refl { m with running := false, sigterms := m.sigterms + 1 }).of_callFarm (c := .stop)
      trivial with }
  · exact { Served.refl { m with running := false, sigterms := m.sigterms + 1 } with }

section Tasks

variable {task : Task} {ts : List Task}

/-- Taking a task off the queue makes no difference to what it does. -/
theorem Served.of_popped (hm : m.tasks = task :: ts) (h : Served { m with tasks := ts } m') : Served m m' :=
  ((Served.refl m).of_tasks fun hmem => hm ▸ List.mem_cons_of_mem _ hmem).trans h

theorem selectActive_move {t : τ} {c : Connection} (hm : m.tasks = task :: ts)
    (hconn : m.isConnected pc = false) (hc : m.toCourse.checkBounds.getActiveConnection = some c) :
    Move pc m (.task t) (final (selectActive pc t) { m.routing c with tasks := ts }) := by
  unfold selectActive
  rw [final_get_bind]
  split
  · next hnone =>
    refine .exited c hconn hc (fun c' hc' => absurd (hnone.symm.trans hc') nofun) ?_
    exact .of_popped hm (exit_served { m.routing c with tasks := ts })
  · next c' hc' =>
    split_ifs with hhost
    · refine .selected c c' hconn hc hc' hhost ?_
      exact .of_popped hm (select_served t c' { m.routing c with tasks := ts })
    · refine .exited c hconn hc (fun c'' hc'' => ?_) ?_
      · rw [← Option.some.inj (hc'.symm.trans hc'')]
        exact not_not.1 hhost
      · exact .of_popped hm (exit_served { m.routing c with tasks := ts })

/-- **`rotateConnect`.** -/
theorem rotateConnect_move (t : τ) (hm : m.tasks = .rotateConnect :: ts) :
    Move pc m (.task t) (final (rotateConnect pc t) { m with tasks := ts }) := by
  unfold rotateConnect modifyCourse
  rw [final_modify_bind, final_get_bind]
  split_ifs with hconn
  · refine .kept (by rw [hm]; rfl) hconn ?_
    exact .of_popped (m := { m with rotations := m.rotations + 1 }) hm (.refl _)
  rw [final_modify_bind, final_get_bind]
  dsimp only
  split
  · next hnone =>
    have hnil : m.toCourse.checkBounds.connections = [] := m.toCourse.bounded_checkBounds.eq_nil hnone
    have hconnections : m.connections = [] := m.toCourse.connections_checkBounds ▸ hnil
    refine .emptied hconnections ?_
    rw [Course.checkBounds, if_pos (by simp [hconnections])]
    exact .of_popped (m := { m with rotations := m.rotations + 1, activeConnectionIdx := 0 }) hm (.refl _)
  · next c hc => exact selectActive_move hm (eq_false_of_ne_true hconn) hc

theorem reconnecttimerElapsed_served (t : τ) (m : PoolManager keccak256 γ) :
    Served m (final (reconnecttimerElapsed pc t) m) := by
  unfold reconnecttimerElapsed
  rw [final_get_bind]
  split_ifs
  · exact (Served.refl m).of_final inferInstance
  · exact .refl m

theorem failovertimerElapsed_move (t : τ) (hm : m.tasks = .failovertimerElapsed :: ts) :
    Move pc m (.task t) (final (failovertimerElapsed pc t) { m with tasks := ts }) := by
  unfold failovertimerElapsed
  rw [final_get_bind]
  split_ifs
  · refine .switched 0 (.inr rfl) (decide_eq_true (congrArg List.head? hm)) ?_
    exact .of_popped (m := m.switching 0) hm (switchTo_served t 0 { m with tasks := ts })
  · exact .served (.of_popped hm (.refl _))

end Tasks

theorem removeConnection_move (idx : ℕ) (m : PoolManager keccak256 γ) :
    Move pc m (.removeConnection idx) (final (removeConnection idx) m) := by
  unfold removeConnection modifyCourse
  rw [final_get_bind]
  split_ifs with hpending hlen hidx
  · exact .served (.refl m)
  · exact .served (.refl m)
  · exact .served (.refl m)
  · exact .removed idx (by omega) hidx

theorem setActiveConnectionCommon_move {e : Event τ ε} {t : τ} {idx : ℕ} (he : e.switches = true)
    (hidx : idx < m.connections.length) :
    Move pc m e (final (setActiveConnectionCommon pc t idx) m) := by
  unfold setActiveConnectionCommon
  rw [final_get_bind]
  split_ifs with hpending hne
  · exact .served (.refl m)
  · rw [final_modify_bind]
    exact .switched idx (.inl hidx) (Event.switchesIn_of_switches he) { switchTo_served t idx { m with asyncPending := true } with }
  · exact .served { Served.refl m with }

theorem setActiveConnection_move (t : τ) (idx : ℕ) (m : PoolManager keccak256 γ) :
    Move pc m (.setActiveConnection t idx) (final (setActiveConnection pc t idx) m) := by
  unfold setActiveConnection
  rw [final_get_bind]
  split_ifs with hlen
  · exact .served (.refl m)
  · exact setActiveConnectionCommon_move rfl (Nat.lt_of_not_le hlen)

theorem setActiveConnectionString_move (t : τ) (connstring : List Char) (m : PoolManager keccak256 γ) :
    Move pc m (.setActiveConnectionString t connstring)
      (final (setActiveConnectionString pc t connstring) m) := by
  unfold setActiveConnectionString
  rw [final_get_bind]
  split
  · next idx hidx =>
    obtain ⟨hlt, -⟩ := List.findIdx?_eq_some_iff_getElem.1 hidx
    exact setActiveConnectionCommon_move rfl hlt
  · exact .served (.refl m)

theorem solutionFound_move (t : τ) (solution : Solution) (m : PoolManager keccak256 γ) :
    Move pc m (.solutionFound t solution) (final (solutionFound pc t solution) m) := by
  unfold solutionFound
  rw [final_get_bind]
  split_ifs with hconn
  · rw [final_modify_bind]
    exact .submitted hconn ((Served.refl (m.submitting solution)).of_final inferInstance)
  · exact .served (.refl m)

theorem stop_served (t : τ) (m : PoolManager keccak256 γ) : Served m (final (stop pc t) m) := by
  unfold stop
  rw [final_get_bind]
  split_ifs
  · rw [final_modify_bind, final_get_bind]
    split_ifs
    · refine Served.of_final { Served.refl m with } (Keeps.bind inferInstance fun _ => ?_)
      exact keeps_modify fun _ h => { h with }
    · rw [final_modify_bind]
      refine Served.of_final { Served.refl m with failover := fun _ hf => ?_ } inferInstance
      exact .inr (hf.resolve_left Bool.false_ne_true)
  · exact .refl m

theorem stopped_served (m : PoolManager keccak256 γ) : Served m (final stopped m) := by
  unfold stopped
  rw [final_get_bind]
  split_ifs
  · exact { Served.refl m with serving := .inr (.inl rfl), calls := (Calls.refl m).unset rfl rfl }
  · exact .refl m

theorem minerRestart_served (m : PoolManager keccak256 γ) : Served m (final minerRestart m) := by
  unfold minerRestart
  exact (Served.refl m).of_final inferInstance

/-- **What a step can do.** -/
theorem act_move (e : Event τ ε) (m : PoolManager keccak256 γ) : Move pc m e (final (act pc e) m) := by
  cases e with
  | task t =>
    unfold act
    rw [final_get_bind]
    split
    · exact .served (.refl m)
    · next task ts hts =>
      rw [final_modify_bind]
      cases task with
      | rotateConnect => exact rotateConnect_move t hts
      | failovertimerElapsed => exact failovertimerElapsed_move t hts
      | reconnecttimerElapsed => exact .served (.of_popped hts (reconnecttimerElapsed_served t _))
  | client e =>
    unfold act
    rw [final_get_bind]
    split_ifs
    · exact .served ((Served.refl m).of_final inferInstance)
    · exact .served (.refl m)
  | failoverExpired =>
    unfold act
    rw [final_get_bind]
    split_ifs with htimer
    · exact .served { Served.refl m with failover := fun _ _ => .inl htimer }
    · exact .served (.refl m)
  | reconnectExpired =>
    unfold act
    rw [final_get_bind]
    split_ifs
    · rw [final_modify_bind]
      exact .served (Served.of_final { Served.refl m with } (post_served nofun))
    · exact .served (.refl m)
  | addConnection c => exact .added c
  | removeConnection idx => exact removeConnection_move idx m
  | setActiveConnection t idx => exact setActiveConnection_move t idx m
  | setActiveConnectionString t connstring => exact setActiveConnectionString_move t connstring m
  | solutionFound t solution => exact solutionFound_move t solution m
  | stop t => exact .served (stop_served t m)
  | stopped => exact .served (stopped_served m)
  | minerRestart => exact .served (minerRestart_served m)

end PoolManager

/-- A step of a run is a step of the manager, or none after a crash. -/
theorem ManagerRun.next_move {pc : PoolClient γ τ ε} (s : ManagerRun keccak256 γ)
    (e : PoolManager.Event τ ε) : PoolManager.Move pc s.manager e (s.next pc e).manager := by
  unfold next
  split_ifs
  · exact .served (.refl _)
  · exact PoolManager.act_move e s.manager

/-- **The invariant rule for runs of the manager**: an invariant of the moves with the
condition `C`, in a run in which all steps have it. -/
theorem ManagerRun.inv_of_along {pc : PoolClient γ τ ε} {Inv : PoolManager keccak256 γ → Prop}
    {C : PoolManager keccak256 γ → PoolManager.Event τ ε → Prop} {m : PoolManager keccak256 γ} (h0 : Inv m)
    (hstep : ∀ m e m', Inv m → C m e → PoolManager.Move pc m e m' → Inv m')
    {es : List (PoolManager.Event τ ε)}
    (hC : Along (ManagerRun.next pc) (fun s e => C s.manager e) ⟨m, false⟩ es) :
    Inv (run (ManagerRun.next pc) ⟨m, false⟩ es).manager :=
  @Along.run_inv _ _ _ _ _ (fun s : ManagerRun keccak256 γ => Inv s.manager) h0
    (fun s e hs hc => hstep _ e _ hs hc (s.next_move e)) es hC

/-- The rule for an invariant of all moves. -/
theorem ManagerRun.inv_of_moves {pc : PoolClient γ τ ε} {Inv : PoolManager keccak256 γ → Prop}
    {m : PoolManager keccak256 γ} (h0 : Inv m)
    (hstep : ∀ m e m', Inv m → PoolManager.Move pc m e m' → Inv m')
    (es : List (PoolManager.Event τ ε)) : Inv (run (ManagerRun.next pc) ⟨m, false⟩ es).manager :=
  inv_of_along (C := fun _ _ => True) h0 (fun m e m' hm _ => hstep m e m' hm)
    (along_of_forall (fun _ _ => trivial) es)

end Pool
end EtcMiner
