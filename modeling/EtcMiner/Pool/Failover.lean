/-
# The order of failover

`docs/Options.md`: a connection is tried `--retry-max` times, then the next one in the list,
and after the last one the first.  The schedule is the work of an attempt counter and an index
that `rotateConnect` moves (`Course.rotate`).

Here every attempt fails, in a way that does not rule the connection out, and nobody calls
the manager (`Failing`).  With two connections or more, or without a limit, the `n`-th attempt
is on the connection `n / R % k` (`Rotating`).  A single connection is tried `R` times and then
erased, and the manager shuts down (`Exhausting`).
-/

import EtcMiner.Pool.Connections

namespace EtcMiner
namespace Pool

open Common Eth Ethash Lib

variable {keccak256 : Hash 8 → Hash 8} {γ τ ε : Type} {pc : PoolClient γ τ ε}

namespace Course

variable {k : Course} {R : ℕ}

theorem checkBounds_of_lt (h : k.activeConnectionIdx < k.connections.length) : k.checkBounds = k := by
  rw [checkBounds, if_neg (by omega)]

theorem mem_of_checkBounds {c : Connection} (h : k.checkBounds.getActiveConnection = some c) :
    c ∈ k.connections :=
  k.connections_checkBounds ▸ List.mem_of_getElem? h

/-- A connection is erased only if it is the only one and the limit is reached. -/
theorem discard_of_recoverable (h : 2 ≤ k.connections.length ∨ k.exceedsRetries R = false) :
    k.discard R false = k := by
  rw [discard, if_neg Bool.false_ne_true, if_neg]
  rintro ⟨hone, hexceeds⟩
  rcases h with htwo | hlimit
  · omega
  · exact Bool.false_ne_true (hlimit.symm.trans hexceeds)

theorem exceedsRetries_iff : k.exceedsRetries R = true ↔ R ≠ 0 ∧ R ≤ k.connectionAttempt := by
  simp [exceedsRetries]

/-- The only connection is erased once the limit is reached, and there is nothing to rotate. -/
theorem route_of_single {c : Connection} (hlist : k.connections = [c]) (hidx : k.activeConnectionIdx = 0) :
    (k.checkBounds.discard R false).rotate R = if k.exceedsRetries R then k.eraseActive else k := by
  rw [checkBounds_of_lt (by simp [hlist, hidx]), discard, if_neg Bool.false_ne_true]
  by_cases hex : k.exceedsRetries R = true
  · have hnil : k.eraseActive.connections = [] := by simp [eraseActive, hlist, hidx]
    rw [if_pos ⟨by simp [hlist], hex⟩, if_pos hex, rotate, if_neg fun h => h.1 hnil]
  · rw [if_neg fun h => hex h.2, if_neg hex, rotate, if_neg fun h => hex h.2]

end Course

namespace PoolManager

/-- The calls that change the list or the place in it. -/
def Event.isCall : Event τ ε → Bool
  | .addConnection _ | .removeConnection _ | .setActiveConnection _ _ | .setActiveConnectionString _ _ => true
  | _ => false

theorem Event.isCall_of_switches {e : Event τ ε} (h : e.switches = true) : e.isCall = true := by
  cases e <;> first | rfl | exact (nomatch h)

/-- A step of a run in which every attempt fails: nobody calls the manager, the client has
failed when `rotateConnect` is run, and no connection is marked unrecoverable. -/
structure Failing (pc : PoolClient γ τ ε) (m : PoolManager keccak256 γ) (e : Event τ ε) : Prop where
  noCall : e.isCall = false
  failed : m.tasks.head? = some .rotateConnect → m.isConnected pc = false
  recoverable : ∀ c ∈ m.connections, (m.conns c.id).unrecoverable = false

instance (pc : PoolClient γ τ ε) (m : PoolManager keccak256 γ) (e : Event τ ε) : Decidable (m.Failing pc e) :=
  decidable_of_iff (e.isCall = false ∧
      (m.tasks.head? = some .rotateConnect → m.isConnected pc = false) ∧
      m.connections.all (fun c => !(m.conns c.id).unrecoverable) = true)
    ⟨fun h => ⟨h.1, h.2.1, by simpa using h.2.2⟩, fun h => ⟨h.1, h.2, by simpa using h.3⟩⟩

/-- The place of the `n`-th attempt: after `q` changes of the connection, the active one has
been tried `connectionAttempt` times. -/
structure AtTurn (cs : List Connection) (R n q : ℕ) (k : Course) : Prop where
  connections : k.connections = cs
  attempts : n = q * R + k.connectionAttempt
  idx : k.activeConnectionIdx = q % cs.length
  unlimited : R = 0 → q = 0

/-- The manager goes round the list `cs`, with `R` attempts on each connection. -/
structure Rotating (cs : List Connection) (R : ℕ) (m : PoolManager keccak256 γ) : Prop where
  retries : m.settings.connectionMaxRetries = R
  failover : ¬ m.Failover
  rotations : m.rotations = m.selected.length
  turn : ∃ q, AtTurn cs R m.rotations q m.toCourse ∧ (R ≠ 0 → m.connectionAttempt ≤ R)
  selected : ∀ n < m.selected.length, m.selected[n]? = cs[n / R % cs.length]?

variable {m m' : PoolManager keccak256 γ} {cs : List Connection} {R : ℕ} {e : Event τ ε}

/-- The index goes round. -/
theorem succ_mod_eq {q k : ℕ} (hk : 2 ≤ k) : (q + 1) % k = if k ≤ q % k + 1 then 0 else q % k + 1 := by
  have hlt : q % k < k := Nat.mod_lt q (by omega)
  rw [Nat.add_mod, Nat.mod_eq_of_lt (show 1 < k by omega)]
  split_ifs with hlast
  · rw [show q % k + 1 = k by omega, Nat.mod_self]
  · exact Nat.mod_eq_of_lt (by omega)

/-- The last attempt on a connection is followed by the first one on the next. -/
theorem AtTurn.rotate {n q : ℕ} {k : Course} (hcs : 2 ≤ cs.length) (h : AtTurn cs R n q k) (hR : R ≠ 0)
    (hlast : k.connectionAttempt = R) : AtTurn cs R n (q + 1) (k.rotate R) ∧ (k.rotate R).connectionAttempt = 0 := by
  have hrotate : k.connections ≠ [] ∧ k.exceedsRetries R = true := by
    refine ⟨?_, Course.exceedsRetries_iff.2 ⟨hR, hlast.ge⟩⟩
    rw [h.connections]
    exact List.ne_nil_of_length_pos (by omega)
  rw [Course.rotate, if_pos hrotate]
  refine ⟨⟨?_, ?_, ?_, fun hzero => absurd hzero hR⟩, by simp⟩
  · simp [h.connections]
  · have hn := h.attempts
    rw [hlast] at hn
    simp [hn, Nat.succ_mul]
  · dsimp only
    rw [Course.activeConnectionIdx_checkBounds, succ_mod_eq hcs, h.connections, h.idx]

/-- **The next turn.**  `rotateConnect` goes on to the next connection once the limit is
reached. -/
theorem AtTurn.route {n q : ℕ} {k : Course} (hcs : 2 ≤ cs.length ∨ R = 0) (hpos : 0 < cs.length)
    (h : AtTurn cs R n q k) (hle : R ≠ 0 → k.connectionAttempt ≤ R) :
    ∃ q', AtTurn cs R n q' ((k.checkBounds.discard R false).rotate R) ∧
      (R ≠ 0 → ((k.checkBounds.discard R false).rotate R).connectionAttempt < R) := by
  have hlt : k.activeConnectionIdx < k.connections.length := by
    rw [h.idx, h.connections]
    exact Nat.mod_lt q hpos
  have hexceeds := Course.exceedsRetries_iff (k := k) (R := R)
  have hdiscard : k.discard R false = k := by
    refine Course.discard_of_recoverable (hcs.imp (fun h' => h.connections ▸ h') fun hzero => ?_)
    rw [← Bool.not_eq_true, hexceeds]
    exact fun hex => hex.1 hzero
  rw [Course.checkBounds_of_lt hlt, hdiscard]
  by_cases hlast : R ≠ 0 ∧ R ≤ k.connectionAttempt
  · obtain ⟨hR, hge⟩ := hlast
    obtain ⟨hturn, hzero⟩ := h.rotate (hcs.resolve_right hR) hR (le_antisymm (hle hR) hge)
    exact ⟨q + 1, hturn, fun _ => by omega⟩
  · have hsame : k.rotate R = k := by
      rw [Course.rotate, if_neg fun hr => hlast (hexceeds.1 hr.2)]
    rw [hsame]
    exact ⟨q, h, fun hR => by omega⟩

/-- The number of a turn is the number of attempts over the limit. -/
theorem AtTurn.div_eq {n q : ℕ} {k : Course} (h : AtTurn cs R n q k) (hlt : R ≠ 0 → k.connectionAttempt < R) :
    n / R = q := by
  rcases Nat.eq_zero_or_pos R with hzero | hpos
  · rw [hzero, Nat.div_zero, h.unlimited hzero]
  · rw [h.attempts, Nat.add_comm, Nat.add_mul_div_right _ _ hpos, Nat.div_eq_of_lt (hlt (by omega)), Nat.zero_add]

theorem routed_of_recoverable {c : Connection} (hfail : Failing pc m e)
    (hc : m.toCourse.checkBounds.getActiveConnection = some c) : m.routed c =
      (m.toCourse.checkBounds.discard m.settings.connectionMaxRetries false).rotate
        m.settings.connectionMaxRetries := by
  rw [routed, hfail.recoverable c (Course.mem_of_checkBounds hc)]

/-- No client becomes connected unless `onConnected` is called. -/
theorem Move.sessions_le (h : Move pc m e m') : m.sessions ≤ m'.sessions := by
  cases h with
  | served h => exact h.sessions
  | submitted hconn h => exact h.sessions
  | added c => exact le_rfl
  | removed idx hlt hne => exact le_rfl
  | switched idx hidx hcall h => exact h.sessions
  | kept htask hconn h => exact h.sessions
  | emptied hnil h => exact h.sessions
  | exited c hconn hc hexit h => exact h.sessions
  | selected c c' hconn hc hc' hhost h => exact h.sessions

theorem Served.rotating (h : Served m m') (hsessions : m'.sessions = m.sessions) (hm : Rotating cs R m) :
    Rotating cs R m' := by
  obtain ⟨q, hturn, hle⟩ := hm.turn
  have hattempt := h.connectionAttempt hsessions
  refine ⟨?_, fun hf => hm.failover (h.failover hsessions hf), ?_, ⟨q, ⟨?_, ?_, ?_, hturn.unlimited⟩, ?_⟩, ?_⟩
  · rw [h.settings, hm.retries]
  · rw [h.rotations, h.selected, hm.rotations]
  · rw [h.connections, hturn.connections]
  · rw [h.rotations, hattempt, ← hturn.attempts]
  · rw [h.activeConnectionIdx, hturn.idx]
  · rw [hattempt]
    exact hle
  · rw [h.selected]
    exact hm.selected

theorem Rotating.routed {c : Connection} (hcs : 2 ≤ cs.length ∨ R = 0) (hpos : 0 < cs.length)
    (hm : Rotating cs R m) (hfail : Failing pc m e)
    (hc : m.toCourse.checkBounds.getActiveConnection = some c) :
    ∃ q, AtTurn cs R m.rotations q (m.routed c) ∧ (R ≠ 0 → (m.routed c).connectionAttempt < R) := by
  obtain ⟨q, hturn, hle⟩ := hm.turn
  rw [routed_of_recoverable hfail hc, hm.retries]
  exact hturn.route hcs hpos hle

/-- The client of the next turn. -/
theorem Rotating.selecting {t : τ} {c c' : Connection} (hcs : 2 ≤ cs.length ∨ R = 0) (hpos : 0 < cs.length)
    (hm : Rotating cs R m) (hfail : Failing pc m e)
    (hc : m.toCourse.checkBounds.getActiveConnection = some c)
    (hc' : (m.routed c).getActiveConnection = some c') :
    Rotating cs R ((m.routing c).selecting pc t c') := by
  obtain ⟨q, hturn, hlt⟩ := hm.routed hcs hpos hfail hc
  have hplace : some c' = cs[m.selected.length / R % cs.length]? := by
    rw [← hm.rotations, hturn.div_eq hlt, ← hturn.idx, ← hturn.connections]
    exact hc'.symm
  refine ⟨hm.retries, hm.failover, ?_, ⟨q, ⟨hturn.connections, ?_, hturn.idx, hturn.unlimited⟩, hlt⟩, ?_⟩
  · show m.rotations + 1 = (m.selected ++ [c']).length
    rw [List.length_append, hm.rotations]
    rfl
  · show m.rotations + 1 = q * R + ((m.routed c).connectionAttempt + 1)
    have hattempts := hturn.attempts
    omega
  · intro n hn
    show (m.selected ++ [c'])[n]? = _
    rcases Nat.lt_or_ge n m.selected.length with hbefore | hge
    · rw [List.getElem?_append_left hbefore]
      exact hm.selected n hbefore
    · have hlast : n < m.selected.length + 1 := by simpa [PoolManager.selecting, routing] using hn
      obtain rfl : n = m.selected.length := by omega
      rw [List.getElem?_concat_length]
      exact hplace

/-- Without a call and a failover nothing switches the connection. -/
theorem Failing.not_switchesIn (hfail : Failing pc m e) (hfailover : ¬ m.Failover) : ¬ e.switchesIn m = true := by
  intro hcall
  rcases Event.switches_or_failover hcall with hswitch | hf
  · exact (nomatch hfail.noCall.symm.trans (Event.isCall_of_switches hswitch))
  · exact hfailover hf

/-- **A step of the rotation.** -/
theorem Move.rotating (hcs : 2 ≤ cs.length ∨ R = 0) (hpos : 0 < cs.length)
    (hexit : ∀ c ∈ cs, c.uri.host ≠ "exit".toList) (h : Move pc m e m') (hfail : Failing pc m e)
    (hm : m.sessions = 0 → Rotating cs R m) (h0 : m'.sessions = 0) : Rotating cs R m' := by
  have hsessions : m.sessions = 0 := Nat.eq_zero_of_le_zero (h0 ▸ h.sessions_le)
  have hrot := hm hsessions
  have hsame : m'.sessions = m.sessions := h0.trans hsessions.symm
  obtain ⟨q, hturn, hle⟩ := hrot.turn
  cases h with
  | served h => exact h.rotating hsame hrot
  | submitted hconn h => exact h.rotating hsame { hrot with }
  | added c => exact (nomatch hfail.noCall)
  | removed idx hlt hne => exact (nomatch hfail.noCall)
  | switched idx hidx hcall h => exact (hfail.not_switchesIn hrot.failover hcall).elim
  | kept htask hconn h => exact absurd (hfail.failed htask) (by rw [hconn]; exact nofun)
  | emptied hnil h =>
    rw [← hturn.connections, hnil] at hpos
    exact absurd hpos (Nat.lt_irrefl 0)
  | exited c hconn hc hexit' h =>
    obtain ⟨q', hturn', -⟩ := hrot.routed hcs hpos hfail hc
    obtain ⟨c', hc'⟩ : ∃ c', cs[q' % cs.length]? = some c' :=
      ⟨_, List.getElem?_eq_getElem (Nat.mod_lt q' hpos)⟩
    refine absurd (hexit' c' ?_) (hexit c' (List.mem_of_getElem? hc'))
    rw [Course.getActiveConnection, hturn'.connections, hturn'.idx, hc']
  | selected c c' hconn hc hc' hhost h => exact h.rotating hsame (hrot.selecting hcs hpos hfail hc hc')

/-- The manager tries the only connection `c`, at most `R` times, and then shuts down. -/
structure Exhausting (c : Connection) (R : ℕ) (m : PoolManager keccak256 γ) : Prop where
  retries : m.settings.connectionMaxRetries = R
  failover : ¬ m.Failover
  selected : m.selected = List.replicate (min m.rotations R) c
  trying : m.rotations ≤ R →
    m.connections = [c] ∧ m.activeConnectionIdx = 0 ∧ m.connectionAttempt = m.rotations
  exhausted : R < m.rotations → m.connections = [] ∧ m.running = false ∧ 0 < m.sigterms

theorem Served.exhausting {c : Connection} (h : Served m m') (hsessions : m'.sessions = m.sessions)
    (hm : Exhausting c R m) : Exhausting c R m' := by
  refine ⟨?_, fun hf => hm.failover (h.failover hsessions hf), ?_, ?_, ?_⟩
  · rw [h.settings, hm.retries]
  · rw [h.selected, h.rotations, hm.selected]
  · rw [h.rotations, h.connections, h.activeConnectionIdx, h.connectionAttempt hsessions]
    exact hm.trying
  · intro hlt
    rw [h.rotations] at hlt
    obtain ⟨hnil, hrunning, hsigterms⟩ := hm.exhausted hlt
    rw [h.connections, h.sigterms]
    exact ⟨hnil, eq_false_of_ne_true fun hrun => (nomatch hrunning.symm.trans (h.running hrun)), hsigterms⟩

theorem Exhausting.routed {c d : Connection} (hm : Exhausting c R m) (hR : R ≠ 0) (hfail : Failing pc m e)
    (hd : m.toCourse.checkBounds.getActiveConnection = some d) :
    m.rotations ≤ R ∧ m.routed d = if R ≤ m.rotations then m.toCourse.eraseActive else m.toCourse := by
  have hle : m.rotations ≤ R := by
    by_contra hlt
    have hmem := Course.mem_of_checkBounds hd
    rw [(hm.exhausted (Nat.lt_of_not_le hlt)).1] at hmem
    exact List.not_mem_nil hmem
  obtain ⟨hlist, hidx, hattempt⟩ := hm.trying hle
  refine ⟨hle, ?_⟩
  rw [routed_of_recoverable hfail hd, hm.retries, Course.route_of_single hlist hidx]
  simp only [Course.exceedsRetries_iff, hattempt, ne_eq, hR, not_false_eq_true, true_and]

/-- **A step of the last connection.** -/
theorem Move.exhausting {c : Connection} (hR : R ≠ 0) (hexit : c.uri.host ≠ "exit".toList)
    (h : Move pc m e m') (hfail : Failing pc m e) (hm : m.sessions = 0 → Exhausting c R m)
    (h0 : m'.sessions = 0) : Exhausting c R m' := by
  have hsessions : m.sessions = 0 := Nat.eq_zero_of_le_zero (h0 ▸ h.sessions_le)
  have hexh := hm hsessions
  have hsame : m'.sessions = m.sessions := h0.trans hsessions.symm
  cases h with
  | served h => exact h.exhausting hsame hexh
  | submitted hconn h => exact h.exhausting hsame { hexh with }
  | added c => exact (nomatch hfail.noCall)
  | removed idx hlt hne => exact (nomatch hfail.noCall)
  | switched idx hidx hcall h => exact (hfail.not_switchesIn hexh.failover hcall).elim
  | kept htask hconn h => exact absurd (hfail.failed htask) (by rw [hconn]; exact nofun)
  | emptied hnil h =>
    have hlt : R < m.rotations := by
      by_contra hle
      exact (nomatch hnil.symm.trans (hexh.trying (Nat.le_of_not_lt hle)).1)
    refine h.exhausting hsame ⟨hexh.retries, hexh.failover, ?_, fun hle => ?_, fun _ => hexh.exhausted hlt⟩
    · show m.selected = List.replicate (min (m.rotations + 1) R) c
      rw [hexh.selected, Nat.min_eq_right hlt.le, Nat.min_eq_right (by omega)]
    · exact absurd hle (by dsimp only; omega)
  | exited d hconn hd hexit' h =>
    obtain ⟨hle, hrouted⟩ := hexh.routed hR hfail hd
    obtain ⟨hlist, hidx, -⟩ := hexh.trying hle
    have hge : R ≤ m.rotations := by
      by_contra hlt
      rw [if_neg hlt] at hrouted
      refine hexit (hexit' c ?_)
      rw [hrouted, Course.getActiveConnection, hlist, hidx]
      rfl
    rw [if_pos hge] at hrouted
    refine h.exhausting hsame ⟨hexh.retries, hexh.failover, ?_, fun hle' => ?_, fun _ => ⟨?_, rfl, ?_⟩⟩
    · show m.selected = List.replicate (min (m.rotations + 1) R) c
      rw [hexh.selected, Nat.min_eq_right hge, Nat.min_eq_right (by omega)]
    · exact absurd hle' (by dsimp only [routing]; omega)
    · show (m.routed d).connections = []
      simp [hrouted, Course.eraseActive, hlist, hidx]
    · exact Nat.succ_pos _
  | selected d d' hconn hd hd' hhost h =>
    obtain ⟨hle, hrouted⟩ := hexh.routed hR hfail hd
    obtain ⟨hlist, hidx, hattempt⟩ := hexh.trying hle
    have hlt : m.rotations < R := by
      by_contra hge
      rw [hrouted, if_pos (Nat.le_of_not_lt hge)] at hd'
      simp [Course.getActiveConnection, Course.eraseActive, hlist, hidx] at hd'
    rw [if_neg (Nat.not_le_of_lt hlt)] at hrouted
    have hd : d' = c := by
      rw [hrouted, Course.getActiveConnection, hlist, hidx] at hd'
      exact (Option.some.inj hd').symm
    subst hd
    refine h.exhausting hsame ⟨hexh.retries, hexh.failover, ?_, fun _ => ⟨?_, ?_, ?_⟩, fun hgt => ?_⟩
    · show m.selected ++ [d'] = List.replicate (min (m.rotations + 1) R) d'
      rw [hexh.selected, Nat.min_eq_left hle, Nat.min_eq_left hlt, List.replicate_succ']
    · exact (congrArg Course.connections hrouted).trans hlist
    · exact (congrArg Course.activeConnectionIdx hrouted).trans hidx
    · exact congrArg (· + 1) ((congrArg Course.connectionAttempt hrouted).trans hattempt)
    · exact absurd hgt (by dsimp only [PoolManager.selecting, routing]; omega)

end PoolManager

/-- The invariant rule for runs in which every attempt fails and no client becomes connected. -/
theorem ManagerRun.inv_of_failing {Inv : PoolManager keccak256 γ → Prop} {m : PoolManager keccak256 γ}
    (h0 : Inv m) (hstep : ∀ m e m', PoolManager.Move pc m e m' → m.Failing pc e →
      (m.sessions = 0 → Inv m) → m'.sessions = 0 → Inv m')
    {es : List (PoolManager.Event τ ε)}
    (hfail : Along (ManagerRun.next pc) (fun s e => s.manager.Failing pc e) ⟨m, false⟩ es)
    (hsessions : (run (ManagerRun.next pc) ⟨m, false⟩ es).manager.sessions = 0) :
    Inv (run (ManagerRun.next pc) ⟨m, false⟩ es).manager :=
  @ManagerRun.inv_of_along _ _ _ _ pc (fun m => m.sessions = 0 → Inv m) _ _ (fun _ => h0)
    (fun m e m' hm hf hmove => hstep m e m' hmove hf hm) es hfail hsessions

/-- **Failover visits the connections in order.**  In a run in which every attempt fails
recoverably and no client becomes connected, the `n`-th attempt is on the connection
`n / R % k`, which is the first one if there is no limit, and the list stays as it is; a single
connection is tried `R` times, then the list is empty and the manager is shut down. -/
theorem failover_order (pc : PoolClient γ τ ε) (settings : PoolSettings) (cs : List Connection)
    (conns : ℕ → Stratum.Conn) (work : WorkHandler keccak256) (es : List (PoolManager.Event τ ε))
    (hcs : 1 ≤ cs.length) (hexit : ∀ c ∈ cs, c.uri.host ≠ "exit".toList)
    (hfail : Along (ManagerRun.next pc) (fun s e => PoolManager.Failing pc s.manager e)
      ⟨.started settings cs conns work, false⟩ es)
    (hsessions : (run (ManagerRun.next pc) ⟨.started settings cs conns work, false⟩ es).manager.sessions = 0) :
    let m := (run (ManagerRun.next pc) ⟨.started settings cs conns work, false⟩ es).manager
    let R := settings.connectionMaxRetries
    (2 ≤ cs.length → 1 ≤ R → m.connections = cs ∧ m.selected.length = m.rotations ∧
      ∀ n < m.selected.length, m.selected[n]? = cs[n / R % cs.length]?) ∧
    (cs.length = 1 → 1 ≤ R → m.selected.length = min m.rotations R ∧
      (m.rotations ≤ R → m.connections = cs) ∧
      (R < m.rotations → m.connections = [] ∧ m.running = false ∧ 0 < m.sigterms)) ∧
    (R = 0 → m.connections = cs ∧ m.selected.length = m.rotations ∧
      ∀ n < m.selected.length, m.selected[n]? = cs[0]?) := by
  intro m R
  have hnofailover : ¬ (PoolManager.started settings cs conns work : PoolManager keccak256 γ).Failover := by
    rintro (h | h)
    · exact (nomatch h)
    · simp [PoolManager.started] at h
  have hrotating (h : 2 ≤ cs.length ∨ R = 0) : m.Rotating cs R := by
    refine ManagerRun.inv_of_failing ?_ (fun m e m' hmove => hmove.rotating h hcs hexit) hfail hsessions
    refine ⟨rfl, hnofailover, rfl, ⟨0, ⟨rfl, ?_, (Nat.zero_mod _).symm, fun _ => rfl⟩, fun _ => Nat.zero_le _⟩, nofun⟩
    rw [Nat.zero_mul]
    rfl
  have hlist (h : 2 ≤ cs.length ∨ R = 0) : m.connections = cs := by
    obtain ⟨q, hturn, -⟩ := (hrotating h).turn
    exact hturn.connections
  refine ⟨fun htwo _ => ?_, fun hone hR => ?_, fun hR => ?_⟩
  · have hrot := hrotating (.inl htwo)
    exact ⟨hlist (.inl htwo), hrot.rotations.symm, hrot.selected⟩
  · obtain ⟨c, rfl⟩ := List.length_eq_one_iff.1 hone
    have hexh : m.Exhausting c R := by
      refine ManagerRun.inv_of_failing ?_
        (fun m e m' hmove => hmove.exhausting (by omega) (hexit c List.mem_cons_self)) hfail hsessions
      exact ⟨rfl, hnofailover, (congrArg (List.replicate · c) (Nat.zero_min R)).symm, fun _ => ⟨rfl, rfl, rfl⟩, nofun⟩
    refine ⟨?_, fun hle => (hexh.trying hle).1, hexh.exhausted⟩
    rw [hexh.selected, List.length_replicate]
  · have hrot := hrotating (.inr hR)
    refine ⟨hlist (.inr hR), hrot.rotations.symm, fun n hn => ?_⟩
    rw [hrot.selected n hn, hR, Nat.div_zero, Nat.zero_mod]

/-- Two connections with two attempts each: the third attempt is on the second connection, the
fifth on the first one again. -/
theorem failover_order_two :
    let a := getworkConnection 0 "a.example"
    let b := getworkConnection 1 "b.example"
    let s := run (ManagerRun.next getworkClient) ⟨getworkManager { connectionMaxRetries := 2 } [a, b], false⟩
      [.task (), .client .failed, .task (), .client .failed, .task (), .client .failed, .task (),
        .client .failed, .task ()]
    s.manager.selected = [a, a, b, b, a] ∧ s.manager.connections = [a, b] := by
  refine ⟨by decide +kernel, ?_⟩
  exact ((failover_order getworkClient { connectionMaxRetries := 2 } _ _ _ _ (by decide) (by decide +kernel)
    (by decide +kernel) (by decide +kernel)).1 (by decide) (by decide)).1

end Pool
end EtcMiner
