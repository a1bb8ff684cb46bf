/-
# Endless runs

`trace next s ev` is the run of a machine on an endless sequence of events, state by state.  Two
properties of steps that agree under an invariant agree along it (`forall_trace_iff`), as for the
lists of events of `Lib.Run`.

What happens at some time is proved with a rank (`eventually_of_rank`): while the goal is not
reached no step raises the rank, a step of the kind `Progress` lowers it, and there is always
another such step to come or the goal itself.  Where every state asks for one kind of event and keeps
asking for it until it comes, it is enough that every kind keeps coming (`eventually_of_helpful`).
-/

import Mathlib.Order.WellFounded

namespace EtcMiner
namespace Lib

variable {σ ε : Type*} {next : σ → ε → σ} {P Q : σ → ε → Prop} {s : σ} {ev : ℕ → ε}

/-- The states of the run on `ev`. -/
def trace (next : σ → ε → σ) (s : σ) (ev : ℕ → ε) : ℕ → σ
  | 0 => s
  | n + 1 => next (trace next s ev n) (ev n)

/-- **The invariant rule**, for the steps with `P`. -/
theorem trace_inv {Inv : σ → Prop} (h0 : Inv s) (hstep : ∀ s e, Inv s → P s e → Inv (next s e))
    (hP : ∀ n, P (trace next s ev n) (ev n)) (n : ℕ) : Inv (trace next s ev n) := by
  induction n with
  | zero => exact h0
  | succ n ih => exact hstep _ _ ih (hP n)

/-- **Two properties of steps agree along a run** if they agree under an invariant that the steps
with them keep. -/
theorem forall_trace_iff {Inv : σ → Prop} (h0 : Inv s) (hiff : ∀ s e, Inv s → (P s e ↔ Q s e))
    (hstep : ∀ s e, Inv s → Q s e → Inv (next s e)) :
    (∀ n, P (trace next s ev n) (ev n)) ↔ ∀ n, Q (trace next s ev n) (ev n) := by
  constructor
  · intro hP n
    have hinv : Inv (trace next s ev n) :=
      trace_inv h0 (fun s e hs h => hstep s e hs ((hiff s e hs).1 h)) hP n
    exact (hiff _ _ hinv).1 (hP n)
  · intro hQ n
    exact (hiff _ _ (trace_inv h0 hstep hQ n)).2 (hQ n)

section Rank

variable {α : Type*} [LT α] {rank : σ → α} {Goal : σ → Prop} {Progress : σ → ε → Prop}
  {t : ℕ → σ}

/-- A goal is reached on the way to a step of progress, or before the rank has fallen. -/
theorem goal_or_rank_lt
    (hstep : ∀ n, ¬ Goal (t n) → Goal (t (n + 1)) ∨ rank (t (n + 1)) < rank (t n) ∨
      rank (t (n + 1)) = rank (t n) ∧ ¬ Progress (t n) (ev n))
    (k n : ℕ) (hn : ¬ Goal (t n)) (hprogress : Goal (t (n + k)) ∨ Progress (t (n + k)) (ev (n + k))) :
    ∃ m, n ≤ m ∧ (Goal (t m) ∨ rank (t m) < rank (t n)) := by
  induction k generalizing n with
  | zero =>
    obtain hgoal | hlt | ⟨-, hno⟩ := hstep n hn
    · exact ⟨n + 1, n.le_succ, .inl hgoal⟩
    · exact ⟨n + 1, n.le_succ, .inr hlt⟩
    · exact absurd hprogress (not_or.2 ⟨hn, hno⟩)
  | succ k ih =>
    obtain hgoal | hlt | ⟨heq, -⟩ := hstep n hn
    · exact ⟨n + 1, n.le_succ, .inl hgoal⟩
    · exact ⟨n + 1, n.le_succ, .inr hlt⟩
    · by_cases hgoal : Goal (t (n + 1))
      · exact ⟨n + 1, n.le_succ, .inl hgoal⟩
      · rw [← Nat.add_assoc, Nat.add_right_comm] at hprogress
        obtain ⟨m, hm, h⟩ := ih (n + 1) hgoal hprogress
        exact ⟨m, by omega, by rwa [heq] at h⟩

/-- **The goal is reached** if there is always progress to come and the rank is well founded. -/
theorem eventually_of_rank [WellFoundedLT α] (rank : σ → α) (Goal : σ → Prop) (Progress : σ → ε → Prop)
    (hstep : ∀ n, ¬ Goal (t n) → Goal (t (n + 1)) ∨ rank (t (n + 1)) < rank (t n) ∨
      rank (t (n + 1)) = rank (t n) ∧ ¬ Progress (t n) (ev n))
    (hfair : ∀ n, ¬ Goal (t n) → ∃ m, n ≤ m ∧ (Goal (t m) ∨ Progress (t m) (ev m))) (n : ℕ) : ∃ m, n ≤ m ∧ Goal (t m) := by
  induction hrank : rank (t n) using WellFoundedLT.induction generalizing n with
  | _ a ih =>
    by_cases hgoal : Goal (t n)
    · exact ⟨n, le_rfl, hgoal⟩
    obtain ⟨m, hm, hprogress⟩ := hfair n hgoal
    obtain ⟨k, rfl⟩ := Nat.exists_eq_add_of_le hm
    obtain ⟨j, hj, hgoal' | hlt⟩ := goal_or_rank_lt hstep k n hgoal hprogress
    · exact ⟨j, hj, hgoal'⟩
    · obtain ⟨i, hi, h⟩ := ih _ (hrank ▸ hlt) j rfl
      exact ⟨i, hj.trans hi, h⟩

/-- **The goal is reached** if each state without it asks for an event, that event lowers the rank, no
other event changes the rank or what is asked for, and what is asked for always comes. -/
theorem eventually_of_helpful [WellFoundedLT α] (rank : σ → α) (Goal : σ → Prop) (Helps : σ → ε → Prop)
    (hhelps : ∀ n, ¬ Goal (t n) → Helps (t n) (ev n) → Goal (t (n + 1)) ∨ rank (t (n + 1)) < rank (t n))
    (helse : ∀ n, ¬ Goal (t n) → ¬ Helps (t n) (ev n) →
      Goal (t (n + 1)) ∨ rank (t (n + 1)) = rank (t n) ∧ ∀ e, Helps (t n) e → Helps (t (n + 1)) e)
    (hfair : ∀ n, ¬ Goal (t n) → ∃ m, n ≤ m ∧ Helps (t n) (ev m)) (n : ℕ) : ∃ m, n ≤ m ∧ Goal (t m) := by
  refine @eventually_of_rank σ ε ev α _ t _ rank Goal Helps ?_ ?_ n
  · intro n hn
    by_cases hhelp : Helps (t n) (ev n)
    · obtain hgoal | hlt := hhelps n hn hhelp
      · exact .inl hgoal
      · exact .inr (.inl hlt)
    · obtain hgoal | ⟨heq, -⟩ := helse n hn hhelp
      · exact .inl hgoal
      · exact .inr (.inr ⟨heq, hhelp⟩)
  · intro n hn
    obtain ⟨m, hm, hhelp⟩ := hfair n hn
    obtain ⟨k, rfl⟩ := Nat.exists_eq_add_of_le hm
    -- the event that helps at `n` still helps when it comes, unless another has helped before
    induction k generalizing n with
    | zero => exact ⟨n, le_rfl, .inr hhelp⟩
    | succ k ih =>
      by_cases hnow : Helps (t n) (ev n)
      · exact ⟨n, le_rfl, .inr hnow⟩
      obtain hgoal | ⟨-, hkeeps⟩ := helse n hn hnow
      · exact ⟨n + 1, n.le_succ, .inl hgoal⟩
      by_cases hgoal : Goal (t (n + 1))
      · exact ⟨n + 1, n.le_succ, .inl hgoal⟩
      rw [← Nat.add_assoc, Nat.add_right_comm] at hhelp
      obtain ⟨i, hi, h⟩ := ih (n + 1) hgoal (by omega) (hkeeps _ hhelp)
      exact ⟨i, by omega, h⟩

end Rank

end Lib
end EtcMiner
