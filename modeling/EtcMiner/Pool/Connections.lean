/-
# The list of connections and the index in it

Connections are added and removed, switched and rotated, and discarded when they fail.  The
index is within bounds after every step (`Move.bounded`), and only an empty list has no
active connection.  A connection that is removed is the one that was asked for, and the
active one stays the same object although its index may change (`remove_getActiveConnection`).
A call that throws has written nothing (`connections_consistent`).
-/

import EtcMiner.Pool.GetworkStatus
import EtcMiner.Pool.Moves

namespace EtcMiner
namespace Pool

open Common Eth Ethash Lib

variable {keccak256 : Hash 8 → Hash 8} {γ τ ε : Type} {pc : PoolClient γ τ ε}

namespace Course

variable {k : Course}

theorem Bounded.eraseActive (hk : k.Bounded) (hlen : k.connections.length = 1) : k.eraseActive.Bounded := by
  rcases hk with hzero | hlt
  · exact .inl hzero
  · exact .inl (show k.activeConnectionIdx = 0 by omega)

theorem Bounded.discard {connectionMaxRetries : ℕ} {unrecoverable : Bool} (hk : k.Bounded) :
    (k.discard connectionMaxRetries unrecoverable).Bounded := by
  unfold Course.discard
  split_ifs with hunrecoverable honly
  · exact bounded_checkBounds _
  · exact hk.eraseActive honly.1
  · exact hk

theorem Bounded.rotate {connectionMaxRetries : ℕ} (hk : k.Bounded) :
    (k.rotate connectionMaxRetries).Bounded := by
  unfold Course.rotate
  split_ifs
  · exact bounded_checkBounds _
  · exact hk

/-- The index follows the active connection: it moves down with the connections above the one
that is removed. -/
theorem Bounded.remove {idx : ℕ} (hk : k.Bounded) (hlt : idx < k.connections.length)
    (hne : idx ≠ k.activeConnectionIdx) : (k.remove idx).Bounded := by
  have hactive : k.activeConnectionIdx < k.connections.length := by
    rcases hk with hzero | hactive
    · omega
    · exact hactive
  right
  unfold Course.remove
  rw [List.length_eraseIdx_of_lt hlt]
  dsimp only
  split_ifs <;> omega

/-- **The active connection stays the same object.** -/
theorem remove_getActiveConnection {idx : ℕ} (hne : idx ≠ k.activeConnectionIdx) :
    (k.remove idx).getActiveConnection = k.getActiveConnection := by
  unfold Course.remove getActiveConnection
  dsimp only
  rw [List.getElem?_eraseIdx]
  split_ifs with hbelow hlt hlt
  · omega
  · rw [Nat.sub_add_cancel (by omega)]
  · rfl
  · omega

end Course

namespace PoolManager

variable {m m' : PoolManager keccak256 γ}

theorem bounded_routed (c : Connection) (m : PoolManager keccak256 γ) : (m.routed c).Bounded :=
  m.toCourse.bounded_checkBounds.discard.rotate

theorem Served.bounded (h : Served m m') (hm : m.Bounded) : m'.Bounded := by
  unfold Course.Bounded
  rw [h.activeConnectionIdx, h.connections]
  exact hm

/-- What a step keeps. -/
theorem Move.bounded {e : Event τ ε} (h : Move pc m e m') (hm : m.Bounded) : m'.Bounded := by
  cases h with
  | served h => exact h.bounded hm
  | submitted hconn h => exact h.bounded hm
  | added c =>
    refine hm.imp_right fun hlt => ?_
    rw [List.length_append]
    exact Nat.lt_add_right _ hlt
  | removed idx hlt hne => exact hm.remove hlt hne
  | switched idx hidx hcall h => exact h.bounded hidx.symm
  | kept htask hconn h => exact h.bounded hm
  | emptied hnil h => exact h.bounded (.inl rfl)
  | exited c hconn hc hexit h => exact h.bounded (bounded_routed c m)
  | selected c c' hconn hc hc' hhost h => exact h.bounded (bounded_routed c m)

/-- `removeConnection` returns only if it has removed the connection. -/
theorem removeConnection_eq_ok {idx : ℕ} (h : removeConnection idx m = .ok () m') :
    idx < m.connections.length ∧ idx ≠ m.activeConnectionIdx ∧
      m' = { m with toCourse := m.toCourse.remove idx } := by
  unfold removeConnection modifyCourse at h
  rw [run_get_bind] at h
  split_ifs at h with hpending hlen hidx
  · exact (nomatch h)
  · exact (nomatch h)
  · exact (nomatch h)
  · exact ⟨Nat.lt_of_not_le hlen, hidx, (EStateM.Result.ok.inj h).2.symm⟩

theorem removeConnection_eq_error {idx : ℕ} {f : Failure} (h : removeConnection idx m = .error f m') :
    m' = m := by
  unfold removeConnection modifyCourse at h
  rw [run_get_bind] at h
  split_ifs at h
  · exact (EStateM.Result.error.inj h).2.symm
  · exact (EStateM.Result.error.inj h).2.symm
  · exact (EStateM.Result.error.inj h).2.symm
  · exact (nomatch h)

/-- Once the flag is taken nothing is thrown but what the client throws. -/
theorem setActiveConnectionCommon_eq_error {t : τ} {idx : ℕ} {what : String}
    (h : setActiveConnectionCommon pc t idx m = .error (.error what) m') : m' = m := by
  unfold setActiveConnectionCommon at h
  rw [run_get_bind] at h
  split_ifs at h
  · exact (EStateM.Result.error.inj h).2.symm
  · rw [run_modify_bind] at h
    exact (nomatch switchTo_error h)
  · exact (nomatch h)

theorem setActiveConnection_eq_error {t : τ} {idx : ℕ} {what : String}
    (h : setActiveConnection pc t idx m = .error (.error what) m') : m' = m := by
  unfold setActiveConnection at h
  rw [run_get_bind] at h
  split_ifs at h
  · exact (EStateM.Result.error.inj h).2.symm
  · exact setActiveConnectionCommon_eq_error h

theorem setActiveConnectionString_eq_error {t : τ} {connstring : List Char} {what : String}
    (h : setActiveConnectionString pc t connstring m = .error (.error what) m') : m' = m := by
  unfold setActiveConnectionString at h
  rw [run_get_bind] at h
  cases hfind : m.connections.findIdx? fun c => iequals c.uri.uri connstring with
  | some idx =>
    rw [hfind] at h
    exact setActiveConnectionCommon_eq_error h
  | none =>
    rw [hfind] at h
    exact (EStateM.Result.error.inj h).2.symm

end PoolManager

/-- **The list and the index are consistent.**  Whatever the manager has started with index zero,
in every state it reaches the index is below the size of the list or the list is empty,
`removeConnection` removes the connection it is asked to and keeps the active one, and a call
that throws leaves everything as it was. -/
theorem connections_consistent (pc : PoolClient γ τ ε) (m₀ : PoolManager keccak256 γ)
    (h0 : m₀.activeConnectionIdx = 0) (es : List (PoolManager.Event τ ε)) :
    let m := (run (ManagerRun.next pc) ⟨m₀, false⟩ es).manager
    (m.activeConnectionIdx < m.connections.length ∨ m.connections = []) ∧
      (∀ idx m', PoolManager.removeConnection idx m = .ok () m' →
        idx < m.connections.length ∧ m'.connections = m.connections.eraseIdx idx ∧
          m'.getActiveConnection = m.getActiveConnection) ∧
      (∀ idx f m', PoolManager.removeConnection idx m = .error f m' → m' = m) ∧
      (∀ t idx what m', PoolManager.setActiveConnection pc t idx m = .error (.error what) m' → m' = m) ∧
      ∀ t connstring what m',
        PoolManager.setActiveConnectionString pc t connstring m = .error (.error what) m' → m' = m := by
  intro m
  have hbounded : m.Bounded :=
    ManagerRun.inv_of_moves (Or.inl h0) (fun _ _ _ hm hmove => hmove.bounded hm) es
  refine ⟨?_, ?_, fun _ _ _ => PoolManager.removeConnection_eq_error,
    fun _ _ _ _ => PoolManager.setActiveConnection_eq_error,
    fun _ _ _ _ => PoolManager.setActiveConnectionString_eq_error⟩
  · rcases hbounded with hzero | hlt
    · rw [hzero, List.length_pos_iff]
      exact (em _).symm
    · exact .inl hlt
  · intro idx m' hremove
    obtain ⟨hlt, hne, rfl⟩ := PoolManager.removeConnection_eq_ok hremove
    exact ⟨hlt, rfl, Course.remove_getActiveConnection hne⟩

/-- The client of the only connection fails, and with it the list gets empty. -/
theorem connections_consistent_getwork :
    let m := getworkManager { connectionMaxRetries := 1 } [getworkConnection 0 "pool.example"]
    let s := run (ManagerRun.next getworkClient) ⟨m, false⟩ [.task (), .client .failed, .task ()]
    s.manager.connections = [] ∧
      (s.manager.activeConnectionIdx < s.manager.connections.length ∨ s.manager.connections = []) := by
  refine ⟨by decide +kernel, ?_⟩
  exact (connections_consistent getworkClient _ rfl _).1

end Pool
end EtcMiner
