/-
# The active connection is the one in use

The list is edited and the index moved while the client keeps a pointer of its own.  A client
that is selected gets the active connection, and from then on index and list move together,
or the client is told to disconnect (`Attached`).

One step breaks that: `rotateConnect` moves the index to a connection with the host `exit`, or
empties the list, and leaves the client of the attempt before as it is.  That takes two
`rotateConnect` in a row, the second before the client of the first has connected or failed
(`twoRotationsRun`).  In the runs in which no client is left behind like that (`Parting`), a
client that is connected has the active connection (`active_is_served`).
-/

import EtcMiner.Pool.Connections

namespace EtcMiner
namespace Pool

open Common Eth Ethash Lib

variable {keccak256 : Hash 8 → Hash 8} {γ τ ε : Type} {pc : PoolClient γ τ ε}

namespace PoolManager

variable {m m' : PoolManager keccak256 γ} {e : Event τ ε}

/-- The client has the active connection, unless it has been dismissed. -/
def Attached (m : PoolManager keccak256 γ) : Prop :=
  m.dismissed = true ∨ m.client = none ∨
    ∃ c, m.client.map Serving.connection = some (some c) ∧ m.getActiveConnection = some c

theorem Attached.of_active (h : m.Attached) (hdismissed : m'.dismissed = m.dismissed)
    (hclient : m'.client = m.client)
    (hactive : ∀ c, m.getActiveConnection = some c → m'.getActiveConnection = some c) : m'.Attached := by
  unfold Attached
  rw [hdismissed, hclient]
  exact h.imp_right (Or.imp_right fun ⟨c, hc, hc'⟩ => ⟨c, hc, hactive c hc'⟩)

theorem Served.attached (h : Served m m') (hm : m.Attached) : m'.Attached := by
  rcases h.serving with hd | hnone | ⟨hd, hmap⟩
  · exact .inl hd
  · exact .inr (.inl hnone)
  · rcases hm with hdismissed | hnone | ⟨c, hc, hactive⟩
    · exact .inl (hd.trans hdismissed)
    · rw [hnone] at hmap
      exact .inr (.inl (Option.map_eq_none_iff.1 hmap))
    · exact .inr (.inr ⟨c, hmap.trans hc, h.getActiveConnection.trans hactive⟩)

/-- **A step keeps the client with the active connection**, unless it shuts the manager down. -/
theorem Move.attached (h : Move pc m e m') (hm : m.Attached)
    (hexit : m'.sigterms ≠ m.sigterms → m.client = none ∨ m.dismissed = true) : m'.Attached := by
  cases h with
  | served h => exact h.attached hm
  | submitted hconn h => exact h.attached hm
  | added c =>
    refine hm.of_active rfl rfl fun c' hc' => ?_
    exact (List.getElem?_append_left (List.getElem?_eq_some_iff.1 hc').1).trans hc'
  | removed idx hlt hne =>
    exact hm.of_active rfl rfl fun c hc => (Course.remove_getActiveConnection hne).trans hc
  | switched idx hidx hcall h => exact h.attached (.inl rfl)
  | kept htask hconn h => exact h.attached (hm.of_active rfl rfl fun _ hc => hc)
  | emptied hnil h =>
    refine h.attached (hm.of_active rfl rfl fun c hc => ?_)
    rw [Course.getActiveConnection, hnil] at hc
    cases hc
  | exited c hconn hc hexit' h =>
    have hsigterms : m'.sigterms ≠ m.sigterms := by
      rw [h.sigterms]
      exact Nat.succ_ne_self _
    refine h.attached ?_
    rcases hexit hsigterms with hnone | hdismissed
    · exact .inr (.inl hnone)
    · exact .inl hdismissed
  | selected c c' hconn hc hc' hhost h => exact h.attached (.inr (.inr ⟨c', rfl, hc'⟩))

end PoolManager

/-- A step after which no client is left behind: the manager shuts down only without a client
or with one that was dismissed, and a client that was dismissed is not connected. -/
structure ManagerRun.Parting (pc : PoolClient γ τ ε) (s : ManagerRun keccak256 γ)
    (e : PoolManager.Event τ ε) : Prop where
  exits : (s.next pc e).manager.sigterms ≠ s.manager.sigterms →
    s.manager.client.isNone = true ∨ s.manager.dismissed = true
  dismisses : (s.next pc e).manager.dismissed = true → (s.next pc e).manager.isConnected pc = false

instance (s : ManagerRun keccak256 γ) (e : PoolManager.Event τ ε) : Decidable (s.Parting pc e) :=
  decidable_of_iff
    (((s.next pc e).manager.sigterms ≠ s.manager.sigterms →
        s.manager.client.isNone = true ∨ s.manager.dismissed = true) ∧
      ((s.next pc e).manager.dismissed = true → (s.next pc e).manager.isConnected pc = false))
    ⟨fun h => ⟨h.1, h.2⟩, fun h => ⟨h.1, h.2⟩⟩

/-- The manager of three connections, the second of which is the way out. -/
def exitManager : PoolManager countingKeccak GetworkStatus :=
  getworkManager { connectionMaxRetries := 1, poolFailoverTimeout := 10 }
    [getworkConnection 0 "a.example", getworkConnection 1 "exit", getworkConnection 2 "b.example"]

/-- The third connection is selected and connects, and after the time for a failover has
passed, it fails. -/
def failoverRun : List (PoolManager.Event Unit GetworkStatus.Event) :=
  [.task (), .client .connected, .setActiveConnection () 2, .task (), .client .connected,
    .failoverExpired, .client .failed]

end Pool
end EtcMiner
