/-
# Counted loops

`for (i = 0; i < n; ++i) s = body(i, s)` as a function of the state, and the rule the
proofs about such loops use: an invariant carried from `i` to `i + 1` (`forLoop_inv`).
-/

import Mathlib.Tactic.Ring

namespace EtcMiner
namespace Lib

variable {σ : Type*}

/-- `for (i = 0; i < n; ++i) s = body(i, s)`. -/
def forLoop (body : ℕ → σ → σ) : ℕ → σ → σ
  | 0, s => s
  | n + 1, s => body n (forLoop body n s)

@[simp] theorem forLoop_zero (body : ℕ → σ → σ) (s : σ) : forLoop body 0 s = s := rfl

/-- **The invariant rule.** -/
theorem forLoop_inv {body : ℕ → σ → σ} {n : ℕ} {s : σ} (P : ℕ → σ → Prop) (h0 : P 0 s)
    (hstep : ∀ i < n, ∀ t, P i t → P (i + 1) (body i t)) : P n (forLoop body n s) := by
  induction n with
  | zero => exact h0
  | succ n ih =>
    exact hstep n (Nat.lt_succ_self n) _ (ih fun i hi => hstep i (Nat.lt_succ_of_lt hi))

/-- A loop whose body makes two steps. -/
theorem forLoop_pairs (body : ℕ → σ → σ) (n : ℕ) (s : σ) :
    forLoop (fun k s => body (2 * k + 1) (body (2 * k) s)) n s = forLoop body (2 * n) s := by
  induction n with
  | zero => rfl
  | succ n ih =>
    rw [Nat.mul_succ]
    simp only [forLoop, ih]

/-- A loop whose first step is made before it. -/
theorem forLoop_succ_first (body : ℕ → σ → σ) (n : ℕ) (s : σ) :
    forLoop (fun i => body (i + 1)) n (body 0 s) = forLoop body (n + 1) s := by
  induction n with
  | zero => rfl
  | succ n ih =>
    rw [forLoop, ih]
    rfl

end Lib
end EtcMiner
