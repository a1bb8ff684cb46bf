/-
# Sweeping an array in place

`for (i = 0; i < n; ++i) a[i] = f(i, a)` overwrites an array while it is read.  When entry `i` is
computed the entries before it are new and the others old (`halfway`), so the result solves a
recurrence in itself (`sweep_apply`).  It is the only solution, if `f` reads the first `n` entries only
(`eq_sweep`).
-/

import EtcMiner.Lib.Loops
import Mathlib.Logic.Function.Basic

namespace EtcMiner
namespace Lib

variable {α : Type*} (f : ℕ → (ℕ → α) → α) (a : ℕ → α)

/-- `for (i = 0; i < n; ++i) a[i] = f(i, a)`. -/
def sweep (n : ℕ) : ℕ → α := forLoop (fun i a => Function.update a i (f i a)) n a

/-- The array when entry `i` is computed. -/
def halfway (new old : ℕ → α) (i : ℕ) : ℕ → α := fun j => if j < i then new j else old j

theorem sweep_succ (n : ℕ) : sweep f a (n + 1) = Function.update (sweep f a n) n (f n (sweep f a n)) := rfl

/-- The entries from `n` on stay. -/
theorem sweep_of_le {n i : ℕ} (h : n ≤ i) : sweep f a n i = a i := by
  induction n with
  | zero => rfl
  | succ n ih =>
    have hne : i ≠ n := by omega
    rw [sweep_succ, Function.update_of_ne hne, ih (by omega)]

/-- An entry is final once the sweep has passed it. -/
theorem sweep_of_lt {m n i : ℕ} (hi : i < m) (hmn : m ≤ n) : sweep f a n i = sweep f a m i := by
  induction n with
  | zero => omega
  | succ n ih =>
    obtain rfl | hlt : m = n + 1 ∨ m ≤ n := by omega
    · rfl
    · have hne : i ≠ n := by omega
      rw [sweep_succ, Function.update_of_ne hne, ih hlt]

theorem sweep_eq_halfway {m n : ℕ} (hmn : m ≤ n) : sweep f a m = halfway (sweep f a n) a m := by
  funext i
  by_cases hi : i < m
  · rw [halfway, if_pos hi, sweep_of_lt f a hi hmn]
  · rw [halfway, if_neg hi, sweep_of_le f a (by omega)]

/-- **The recurrence of a sweep.** -/
theorem sweep_apply {n i : ℕ} (hi : i < n) : sweep f a n i = f i (halfway (sweep f a n) a i) := by
  rw [← sweep_eq_halfway f a hi.le, sweep_of_lt f a (Nat.lt_succ_self i) hi, sweep_succ, Function.update_self]

/-- **The recurrence has one solution.** -/
theorem eq_sweep {n : ℕ} {b old : ℕ → α} (hlocal : ∀ i < n, ∀ x y : ℕ → α, (∀ j < n, x j = y j) → f i x = f i y)
    (hold : ∀ j < n, old j = a j) (hb : ∀ i < n, b i = f i (halfway b old i)) {i : ℕ} (hi : i < n) :
    b i = sweep f a n i := by
  induction i using Nat.strong_induction_on with
  | _ i ih =>
    rw [hb i hi, sweep_apply f a hi]
    refine hlocal i hi _ _ fun j hj => ?_
    by_cases hji : j < i
    · rw [halfway, halfway, if_pos hji, if_pos hji, ih j hji hj]
    · rw [halfway, halfway, if_neg hji, if_neg hji, hold j hj]

end Lib
end EtcMiner
