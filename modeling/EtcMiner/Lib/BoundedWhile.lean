/-
# Loops that end at a test or at a bound

`while (test(s)) s = body(s)` as a function of the state, with fuel (`whileLoop`).  It ends in the
first state that fails the test, and more fuel than that takes changes nothing
(`whileLoop_eq_some_iff`).

A loop that also counts, `while (more(v) && i <= last) { v = next(v); i++; }`, always ends, so it is a
total function (`boundedWhile`).  Its index is that of the first value for which `more` fails, or
`last + 1` if there is none among the first `last + 1` values (`boundedWhile_spec`).  It is within the
bound exactly if there is one (`boundedWhile_le_iff`).
-/

import Mathlib.Data.Nat.Find
import Mathlib.Logic.Function.Iterate

namespace EtcMiner
namespace Lib

section While

variable {σ : Type*} {test : σ → Bool} {body : σ → σ}

/-- `while (test(s)) s = body(s)`: the last state, or nothing if `fuel` tests do not end it. -/
def whileLoop (test : σ → Bool) (body : σ → σ) : ℕ → σ → Option σ
  | 0, _ => none
  | fuel + 1, s => if test s then whileLoop test body fuel (body s) else some s

/-- **The loop ends in the first state that fails the test.** -/
theorem whileLoop_eq_some_iff {fuel : ℕ} {s t : σ} :
    whileLoop test body fuel s = some t ↔
      ∃ k < fuel, (∀ j < k, test (body^[j] s) = true) ∧ test (body^[k] s) = false ∧ t = body^[k] s := by
  induction fuel generalizing s with
  | zero => simp [whileLoop]
  | succ fuel ih =>
    rw [whileLoop]
    by_cases hs : test s = true
    · rw [if_pos hs, ih]
      constructor
      · rintro ⟨k, hk, hgo, hstop, ht⟩
        refine ⟨k + 1, by omega, ?_, hstop, ht⟩
        rintro (_ | j) hj
        · exact hs
        · exact hgo j (by omega)
      · rintro ⟨_ | k, hk, hgo, hstop, ht⟩
        · exact absurd hs (Bool.eq_false_iff.1 hstop)
        · exact ⟨k, by omega, fun j hj => hgo (j + 1) (by omega), hstop, ht⟩
    · rw [if_neg hs]
      constructor
      · intro h
        refine ⟨0, by omega, fun j hj => absurd hj (Nat.not_lt_zero j), ?_, (Option.some.inj h).symm⟩
        exact Bool.eq_false_iff.2 hs
      · rintro ⟨_ | k, hk, hgo, hstop, ht⟩
        · rw [ht]
          rfl
        · exact absurd (hgo 0 (by omega)) hs

/-- A loop that comes to a state that fails the test has ended by then. -/
theorem isSome_whileLoop {fuel n : ℕ} {s : σ} (hn : n < fuel) (hstop : test (body^[n] s) = false) :
    (whileLoop test body fuel s).isSome = true := by
  have hex : ∃ k, test (body^[k] s) = false := ⟨n, hstop⟩
  have hle : Nat.find hex ≤ n := Nat.find_min' hex hstop
  have hgo : ∀ j < Nat.find hex, test (body^[j] s) = true := by
    intro j hj
    simpa using Nat.find_min hex hj
  rw [Option.isSome_iff_exists]
  exact ⟨_, whileLoop_eq_some_iff.2 ⟨Nat.find hex, by omega, hgo, Nat.find_spec hex, rfl⟩⟩

end While

section Bounded

variable {α : Type*} (more : α → Bool) (next : α → α) (last : ℕ) (v : α)

/-- `more(v) && i <= last`. -/
def boundedTest (s : α × ℕ) : Bool := more s.1 && decide (s.2 ≤ last)

/-- `v = next(v); i++`. -/
def boundedBody (s : α × ℕ) : α × ℕ := (next s.1, s.2 + 1)

theorem iterate_boundedBody (k i : ℕ) : (boundedBody next)^[k] (v, i) = (next^[k] v, i + k) := by
  induction k generalizing v i with
  | zero => rfl
  | succ k ih => rw [Function.iterate_succ_apply, boundedBody, ih, Function.iterate_succ_apply, Nat.add_right_comm, Nat.add_assoc]

theorem isSome_boundedWhile :
    (whileLoop (boundedTest more last) (boundedBody next) (last + 2) (v, 0)).isSome = true := by
  -- the counter fails the test after `last + 1` rounds, if nothing else does before
  refine isSome_whileLoop (Nat.lt_succ_self (last + 1)) ?_
  rw [iterate_boundedBody, boundedTest]
  simp

/-- `for (i = 0; more(v) && i <= last; i++) v = next(v)`: the last value and index. -/
def boundedWhile : α × ℕ :=
  (whileLoop (boundedTest more last) (boundedBody next) (last + 2) (v, 0)).get (isSome_boundedWhile more next last v)

theorem whileLoop_eq_some_boundedWhile :
    whileLoop (boundedTest more last) (boundedBody next) (last + 2) (v, 0) = some (boundedWhile more next last v) :=
  (Option.some_get _).symm

/-- **How the loop ends.** -/
theorem boundedWhile_spec :
    ∃ k ≤ last + 1, boundedWhile more next last v = (next^[k] v, k) ∧ (∀ j < k, more (next^[j] v) = true) ∧
      (k ≤ last → more (next^[k] v) = false) := by
  obtain ⟨k, hk, hgo, hstop, hend⟩ := whileLoop_eq_some_iff.1 (whileLoop_eq_some_boundedWhile more next last v)
  simp only [iterate_boundedBody, Nat.zero_add, boundedTest, Bool.and_eq_true] at hgo hstop hend
  refine ⟨k, by omega, hend, fun j hj => (hgo j hj).1, fun hle => ?_⟩
  rwa [decide_eq_true hle, Bool.and_true] at hstop

/-- **The index is within the bound** exactly if one of the values up to there fails. -/
theorem boundedWhile_le_iff :
    (boundedWhile more next last v).2 ≤ last ↔ ∃ j ≤ last, more (next^[j] v) = false := by
  obtain ⟨k, -, hend, hgo, hstop⟩ := boundedWhile_spec more next last v
  rw [hend]
  constructor
  · intro hle
    exact ⟨k, hle, hstop hle⟩
  · rintro ⟨j, hj, hfail⟩
    by_contra hgt
    exact Bool.false_ne_true (hfail.symm.trans (hgo j (by omega)))

end Bounded

end Lib
end EtcMiner
