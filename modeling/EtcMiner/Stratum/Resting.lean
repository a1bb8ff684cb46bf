/-
# A client without an attempt to connect

A client makes attempts to connect because `connect` was called, because a handler of an
attempt is under way or waits, or because a connection is torn down whose mode is still to be
found out.  A client to which none of this applies is `Resting`, and nothing but `connect`
makes it leave that state (`Resting.move`).  It calls `onDisconnected` at most once, when it
gives its connection back, and nothing after that (`Resting.act`).
-/

import EtcMiner.Stratum.AutoDetect

namespace EtcMiner
namespace Stratum

open Common Eth Lib Pool

namespace Link

variable {l l' : Link} {now : ℤ} {rt : Runtime} {k : Kind}

/-- No attempt to connect is under way or can come of what is. -/
structure Resting (l : Link) : Prop where
  connecting : l.connecting = false
  connectOp : l.connectOp = false
  resolveOp : l.resolveOp = false
  kinds : ∀ k ∈ l.kinds, k ≠ .startConnect ∧ k ≠ .resolveHandler ∧ k ≠ .connectHandler
  settled : l.confirmed = true ∨ l.unrecoverable = true ∨ l.responds = false

instance (l : Link) : Decidable l.Resting :=
  decidable_of_iff
    (l.connecting = false ∧ l.connectOp = false ∧ l.resolveOp = false ∧
      l.kinds.all (fun k => k ≠ .startConnect ∧ k ≠ .resolveHandler ∧ k ≠ .connectHandler) = true ∧
      (l.confirmed = true ∨ l.unrecoverable = true ∨ l.responds = false))
    ⟨fun ⟨h₁, h₂, h₃, h₄, h₅⟩ => ⟨h₁, h₂, h₃, by simpa using h₄, h₅⟩,
      fun h => ⟨h.1, h.2, h.3, by simpa using h.4, h.5⟩⟩

/-- What a client without an attempt can do: it stays without one, and either calls handlers
other than `onDisconnected` or gives its connection back. -/
structure Subsides (l l' : Link) : Prop where
  resting : l'.Resting
  attempts : l'.attempts = l.attempts
  raised : (∃ cs, l'.raised = l.raised ++ cs ∧ ∀ c ∈ cs, c.isQuiet = true) ∨
    l'.Done ∧ l'.raised = l.raised ++ [.onDisconnected]

theorem Resting.descends_eq_false (hl : l.Resting) : l.descends = false := by
  rcases hl.settled with h | h | h
  · have hconfirmed : l.client.conn.stratumModeConfirmed = true := h
    simp [descends, hconfirmed]
  · have hunrecoverable : l.client.conn.unrecoverable = true := h
    simp [descends, hunrecoverable]
  · simp [descends, h]

theorem Resting.plain (hl : l.Resting) (h : Plain l l') : l'.Resting := by
  obtain ⟨ks, hkinds, hks, hop⟩ := h.handlers
  rw [hl.connectOp, Bool.toNat_false, Nat.add_eq_zero_iff, List.count_eq_zero] at hop
  refine ⟨h.connecting.trans hl.connecting, ?_, h.resolveOp.trans hl.resolveOp, fun k hk => ?_, ?_⟩
  · exact Bool.toNat_eq_zero.1 hop.2
  · rw [hkinds, List.mem_append] at hk
    rcases hk with hk | hk
    · exact hl.kinds k hk
    · exact ⟨(hks k hk).1, (hks k hk).2, fun h => hop.1 (h ▸ hk)⟩
  · exact hl.settled.imp h.confirmed (Or.imp h.unrecoverable fun hr => h.responds.trans hr)

theorem Resting.subsides (hl : l.Resting) (h : Plain l l')
    (hraised : ∃ cs, l'.raised = l.raised ++ cs ∧ ∀ c ∈ cs, c.isQuiet = true) : Subsides l l' :=
  ⟨hl.plain h, h.attempts, .inl hraised⟩

theorem raised_of_eq (h : l'.raised = l.raised) :
    ∃ cs, l'.raised = l.raised ++ cs ∧ ∀ c ∈ cs, Callback.isQuiet c = true :=
  ⟨[], by simp [h], nofun⟩

/-- A teardown gives the connection back. -/
theorem Resting.finalized (now : ℤ) (hl : l.Resting) : Subsides l (l.finalized now) := by
  rw [finalized_of_descends_eq_false hl.descends_eq_false]
  have hplain : Plain l (l.torn.finished now) := (plain_torn l).trans (plain_finished now _)
  exact ⟨hl.plain hplain, hplain.attempts, .inr ⟨done_finished now l, rfl⟩⟩

/-- **A handler of a client without an attempt.** -/
theorem Resting.outcome (hl : l.Resting)
    (hk : k ≠ .startConnect ∧ k ≠ .resolveHandler ∧ k ≠ .connectHandler) (h : Outcome now k l l') :
    Subsides l l' := by
  cases h with
  | quiet _ hquiet => exact hl.subsides hquiet.plain hquiet.raised
  | skip _ => exact hl.subsides (Plain.refl l) (raised_of_eq rfl)
  | disconnect _ _ =>
    have hdown : l.down.Resting := { hl with }
    exact { hdown.finalized now with }
  | shutDown _ _ => exact hl.subsides (plain_shuttingDown now l) (raised_of_eq rfl)
  | finalize _ => exact hl.finalized now
  | timeOut _ hquiet _ hsocket =>
    exact hl.subsides (hquiet.plain.trans (plain_closed (.inr hsocket))) hquiet.raised
  | shutdown =>
    exact hl.subsides (.of_posted (h := .disconnectFinalize) (by decide) { Plain.refl l with } rfl)
      (raised_of_eq rfl)
  | _ => exact absurd hk (by decide)

theorem Resting.pop {h : Handler} {queue : List Handler} (hl : l.Resting) (hqueue : l.queue = h :: queue) :
    ({ l with queue := queue } : Link).Resting := by
  have hkinds := kinds_of_queue hqueue
  exact { hl with kinds := fun k hk => hl.kinds k (hkinds ▸ List.mem_cons_of_mem _ hk) }

/-- **A step of a client without an attempt**, other than `connect`. -/
theorem Resting.move {e : Event} (hl : l.Resting) (he : e.isConnect = false) (h : Move e l l') :
    Subsides l l' := by
  cases h with
  | stay => exact hl.subsides (Plain.refl l) (raised_of_eq rfl)
  | run hqueue hout =>
    have hmem : _ ∈ l.kinds := kinds_of_queue hqueue ▸ List.mem_cons_self
    exact { (hl.pop hqueue).outcome (hl.kinds _ hmem) hout with }
  | connectName _ _ => exact (nomatch he)
  | connectAddress _ _ => exact (nomatch he)
  | disconnect hout => exact hl.outcome (by decide) hout
  | caught _ => exact hl.subsides { Plain.refl l with } (raised_of_eq rfl)
  | quiet _ hquiet => exact hl.subsides hquiet.plain hquiet.raised
  | resolved hop => exact (nomatch hl.resolveOp.symm.trans hop)
  | connected hop => exact (nomatch hl.connectOp.symm.trans hop)
  | shutdownCompleted _ =>
    exact hl.subsides (.of_posted (h := .onSSLShutdownCompleted) (by decide) { Plain.refl l with } rfl)
      (raised_of_eq rfl)
  | expired _ =>
    exact hl.subsides (.of_posted (h := .workloopTimerElapsed false) (by decide) { Plain.refl l with } rfl)
      (raised_of_eq rfl)

/-- A client that has not begun, or has given its connection back. -/
def Mute (l : Link) : Prop := l.Fresh ∨ l.Done

/-- **What a client without an attempt calls.**  One that has not begun or is finished calls
nothing, but that it gives its connection back once. -/
theorem Resting.act {e : Event} {u : Unit} (hl : l.Resting) (hraised : l.raised = [])
    (he : e.isConnect = false) (hrun : act rt e l = .ok u l') :
    l'.Resting ∧ l'.attempts = l.attempts ∧
      (l'.raised = [] ∧ (l.Done → l'.Done) ∧ (l.Mute → l'.Mute) ∨
        (∀ c ∈ l'.raised, c.isQuiet = true) ∧ ¬ l.Mute ∨
        l'.raised = [.onDisconnected] ∧ l'.Done ∧ ¬ l.Done) := by
  have hsubsides := hl.move he (act_move hrun)
  refine ⟨hsubsides.resting, hsubsides.attempts, ?_⟩
  by_cases hdone : l.Done
  · have hsilent := hdone.act hrun
    exact .inl ⟨hsilent.raised.trans hraised, fun _ => hsilent.toDone, fun _ => .inr hsilent.toDone⟩
  by_cases hfresh : l.Fresh
  · rcases hfresh.act hrun with ⟨hfresh', hsame⟩ | ⟨hdone', hback⟩ | ⟨rfl, -, -⟩
    · exact .inl ⟨hsame.trans hraised, fun h => absurd h hdone, fun _ => .inl hfresh'⟩
    · rw [hraised] at hback
      exact .inr (.inr ⟨hback, hdone', hdone⟩)
    · exact (nomatch he)
  · rcases hsubsides.raised with ⟨cs, hcs, hquiet⟩ | ⟨hdone', hback⟩
    · rw [hraised, List.nil_append] at hcs
      rw [hcs]
      exact .inr (.inl ⟨hquiet, fun h => h.elim hfresh hdone⟩)
    · rw [hraised] at hback
      exact .inr (.inr ⟨hback, hdone', hdone⟩)

end Link
end Stratum
end EtcMiner
