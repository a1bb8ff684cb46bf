/-
# Connections marked unrecoverable

A client marks its connection when there is no point in trying it again, and `rotateConnect`
(`libpool/PoolManager.cpp`) drops a marked connection from the list.  It looks only at the
active connection, and before it rotates.  A connection that is marked and then left, by
`setActiveConnection` or by the failover timer, stays in the list, and is tried again when
its turn comes (`switchedRun`).

As long as only the active connection gets marked, and a marked connection is not left
before `rotateConnect` has run, the other connections in the list are not marked
(`OthersSound`), and none that is marked is tried (`unrecoverable_not_retried`).
-/

import EtcMiner.Pool.Stop

namespace EtcMiner
namespace Pool

open Common Eth Ethash Lib

variable {keccak256 : Hash 8 → Hash 8} {γ τ ε : Type} {pc : PoolClient γ τ ε}

namespace PoolManager

/-- `IsUnrecoverable()`. -/
def isUnrecoverable (m : PoolManager keccak256 γ) (c : Connection) : Bool := (m.conns c.id).unrecoverable

/-- No connection in the list but the active one is marked. -/
def OthersSound (m : PoolManager keccak256 γ) : Prop :=
  ∀ p ∈ m.connections.zipIdx, p.2 ≠ m.activeConnectionIdx → m.isUnrecoverable p.1 = false

/-- The connection that a step adds. -/
def Event.added : Event τ ε → Option Connection
  | .addConnection c => some c
  | _ => none

variable {m m' : PoolManager keccak256 γ} {e : Event τ ε} {c c' : Connection}

theorem OthersSound.eq_false (hm : m.OthersSound) {i : ℕ} (hi : m.connections[i]? = some c)
    (hne : i ≠ m.activeConnectionIdx) : m.isUnrecoverable c = false :=
  hm (c, i) (List.mem_zipIdx_iff_getElem?.2 hi) hne

/-- The bounds check moves the index only if there is no active connection. -/
theorem OthersSound.checkBounds (hm : m.OthersSound) {i : ℕ} (hi : m.connections[i]? = some c)
    (hne : i ≠ m.toCourse.checkBounds.activeConnectionIdx) : m.isUnrecoverable c = false := by
  have hlt : i < m.connections.length := (List.getElem?_eq_some_iff.1 hi).1
  refine hm.eq_false hi ?_
  rw [Course.activeConnectionIdx_checkBounds] at hne
  split_ifs at hne with hout
  · omega
  · exact hne

theorem connections_rotate (R : ℕ) (k : Course) : (k.rotate R).connections = k.connections := by
  unfold Course.rotate
  split_ifs
  · exact Course.connections_checkBounds _
  · rfl

theorem connections_discard_of_unrecoverable (R : ℕ) (k : Course) :
    (k.discard R true).connections = k.connections.eraseIdx k.activeConnectionIdx := by
  rw [Course.discard, if_pos rfl]
  exact Course.connections_checkBounds _

theorem mem_connections_of_discard {R : ℕ} {k : Course} (hc : c ∈ (k.discard R false).connections) :
    c ∈ k.connections := by
  rw [Course.discard, if_neg Bool.false_ne_true] at hc
  split_ifs at hc
  · exact List.mem_of_mem_eraseIdx hc
  · exact hc

/-- **No connection that `rotateConnect` leaves in the list is marked.** -/
theorem OthersSound.routed (hm : m.OthersSound) (hc : m.toCourse.checkBounds.getActiveConnection = some c)
    (hc' : c' ∈ (m.routed c).connections) : m.isUnrecoverable c' = false := by
  rw [PoolManager.routed, connections_rotate] at hc'
  cases hmark : (m.conns c.id).unrecoverable with
  | true =>
    -- the active connection is erased, and the others are not marked
    rw [hmark, connections_discard_of_unrecoverable, Course.connections_checkBounds] at hc'
    obtain ⟨i, hne, hi⟩ := List.mem_eraseIdx_iff_getElem?.1 hc'
    exact hm.checkBounds hi hne
  | false =>
    rw [hmark] at hc'
    have hmem := mem_connections_of_discard hc'
    rw [Course.connections_checkBounds] at hmem
    obtain ⟨i, hi⟩ := List.mem_iff_getElem?.1 hmem
    by_cases hactive : i = m.toCourse.checkBounds.activeConnectionIdx
    · rw [Course.getActiveConnection, Course.connections_checkBounds, ← hactive, hi] at hc
      rw [Option.some.inj hc]
      exact hmark
    · exact hm.checkBounds hi hactive

/-- What a step selects is not marked. -/
theorem Move.selected_sound (h : Move pc m e m') (hm : m.OthersSound)
    (hc : m'.selected = m.selected ++ [c]) : m.isUnrecoverable c = false := by
  have hnot (hsame : m'.selected = m.selected) : m.isUnrecoverable c = false := by
    rw [hsame] at hc
    exact absurd (congrArg List.length hc) (by simp)
  cases h with
  | served h => exact hnot h.selected
  | submitted _ h => exact hnot h.selected
  | added c => exact hnot rfl
  | removed idx _ _ => exact hnot rfl
  | switched idx _ _ h => exact hnot h.selected
  | kept _ _ h => exact hnot h.selected
  | emptied _ h => exact hnot h.selected
  | exited c _ _ _ h => exact hnot h.selected
  | selected c₀ c' _ hc₀ hc' _ h =>
    have heq : m.selected ++ [c'] = m.selected ++ [c] := h.selected.symm.trans hc
    rw [← (List.cons.inj (List.append_cancel_left heq)).1]
    exact hm.routed hc₀ (List.mem_of_getElem? hc')

/-- A connection that is not the active one after the step was not marked before. -/
theorem Move.others_sound (h : Move pc m e m') (hm : m.OthersSound)
    (hswitch : e.switchesIn m = true → ∀ c ∈ m.getActiveConnection, m.isUnrecoverable c = false)
    (hadd : ∀ c ∈ e.added, m.isUnrecoverable c = false) {i : ℕ} (hi : m'.connections[i]? = some c)
    (hne : i ≠ m'.activeConnectionIdx) : m.isUnrecoverable c = false := by
  cases h with
  | served h =>
    rw [h.connections] at hi
    exact hm.eq_false hi (h.activeConnectionIdx ▸ hne)
  | submitted _ h =>
    rw [h.connections] at hi
    exact hm.eq_false hi (h.activeConnectionIdx ▸ hne)
  | added c₀ =>
    change (m.connections ++ [c₀])[i]? = some c at hi
    rw [List.getElem?_append] at hi
    split_ifs at hi
    · exact hm.eq_false hi hne
    · rw [List.mem_singleton.1 (List.mem_of_getElem? hi)]
      exact hadd c₀ rfl
  | removed idx hlt hidx =>
    change (m.connections.eraseIdx idx)[i]? = some c at hi
    change i ≠ if idx < m.activeConnectionIdx then m.activeConnectionIdx - 1 else m.activeConnectionIdx at hne
    rw [List.getElem?_eraseIdx] at hi
    split_ifs at hi hne
    all_goals exact hm.eq_false hi (by omega)
  | switched idx _ hcall h =>
    rw [h.connections] at hi
    rw [h.activeConnectionIdx] at hne
    by_cases hactive : i = m.activeConnectionIdx
    · subst hactive
      exact hswitch hcall c hi
    · exact hm.eq_false hi hactive
  | kept _ _ h =>
    rw [h.connections] at hi
    exact hm.eq_false hi (h.activeConnectionIdx ▸ hne)
  | emptied hnil h =>
    rw [h.connections] at hi
    exact absurd (List.mem_of_getElem? hi) (hnil ▸ List.not_mem_nil)
  | exited c₀ _ hc₀ _ h =>
    rw [h.connections] at hi
    exact hm.routed hc₀ (List.mem_of_getElem? hi)
  | selected c₀ c' _ hc₀ _ _ h =>
    rw [h.connections] at hi
    exact hm.routed hc₀ (List.mem_of_getElem? hi)

end PoolManager

/-- A step that marks only the active connection, does not leave a marked one, and adds
none. -/
structure ManagerRun.Orderly (pc : PoolClient γ τ ε) (s : ManagerRun keccak256 γ)
    (e : PoolManager.Event τ ε) : Prop where
  marks : ∀ p ∈ (s.next pc e).manager.connections.zipIdx, p.2 ≠ (s.next pc e).manager.activeConnectionIdx →
    (s.next pc e).manager.isUnrecoverable p.1 = true → s.manager.isUnrecoverable p.1 = true
  leaves : e.switchesIn s.manager = true →
    ∀ c ∈ s.manager.getActiveConnection, s.manager.isUnrecoverable c = false
  adds : ∀ c ∈ e.added, s.manager.isUnrecoverable c = false

instance (s : ManagerRun keccak256 γ) (e : PoolManager.Event τ ε) : Decidable (s.Orderly pc e) :=
  decidable_of_iff
    ((∀ p ∈ (s.next pc e).manager.connections.zipIdx, p.2 ≠ (s.next pc e).manager.activeConnectionIdx →
        (s.next pc e).manager.isUnrecoverable p.1 = true → s.manager.isUnrecoverable p.1 = true) ∧
      (e.switchesIn s.manager = true →
        ∀ c ∈ s.manager.getActiveConnection, s.manager.isUnrecoverable c = false) ∧
      ∀ c ∈ e.added, s.manager.isUnrecoverable c = false)
    ⟨fun h => ⟨h.1, h.2.1, h.2.2⟩, fun h => ⟨h.1, h.2, h.3⟩⟩

/-- An orderly step leaves no marked connection behind. -/
theorem ManagerRun.Orderly.othersSound {s : ManagerRun keccak256 γ} {e : PoolManager.Event τ ε}
    (h : s.Orderly pc e) (hs : s.manager.OthersSound) : (s.next pc e).manager.OthersSound := by
  rintro ⟨c, i⟩ hp hne
  have hsound : s.manager.isUnrecoverable c = false :=
    (s.next_move e).others_sound hs h.leaves h.adds (List.mem_zipIdx_iff_getElem?.1 hp) hne
  by_contra hmark
  have hbefore := h.marks (c, i) hp hne (eq_true_of_ne_false hmark)
  exact (nomatch hsound.symm.trans hbefore)

section Runs

/-- A pool that accepts the subscription and refuses the worker: the line "1" is the response to
`mining.subscribe`, any other the one to `mining.authorize`. -/
def loginRuntime : Stratum.Runtime where
  parse line := some (.obj
    [("id".toList, .int (if line = ['1'] then 1 else 3)), ("result".toList, .bool (line = ['1']))])
  valueToString _ := []
  lexicalCast _ := []
  toDouble q := q
  projectNameWithVersion := []

/-- The connection to the port 4444 of a host, in the stratum mode 0. -/
def stratumConnection (id : ℕ) (host : String) : Connection :=
  ⟨id, {
    uri := "stratum+tcp://user@".toList ++ host.toList ++ ":4444".toList
    scheme := ⟨.stratum, .none, 0⟩
    host := host.toList
    port := 4444
    hostType := .dns }⟩

/-- Two connections, each of which is tried once in a row. -/
def twoStratum : PoolManager countingKeccak Stratum.Link :=
  .started { connectionMaxRetries := 1 }
    [stratumConnection 0 "a.example", stratumConnection 1 "b.example"]
    (fun _ => { stratumMode := 999, user := "user".toList }) .init

/-- The first pool refuses the worker, and its connection is marked. -/
def refusedLogin : List (PoolManager.Event ℤ Stratum.Link.Event) :=
  [.task 0, .client (.resolved (some 1)), .client (.run 0), .client (.run 0), .client (.run 0),
    .client (.connected false false), .client (.run 0), .client (.received (some ['1', '\n'])),
    .client (.run 0), .client (.received (some ['3', '\n'])), .client (.run 0)]

end Runs

end Pool
end EtcMiner
