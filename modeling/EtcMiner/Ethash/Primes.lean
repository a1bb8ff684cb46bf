/-
# The largest prime up to a bound

`is_odd_prime` and `ethash_find_largest_prime` in `ethash/lib/ethash/primes.c`.
The trial division is a primality test on the odd numbers from `3` on
(`isOddPrime_iff`), so the descending search finds the largest prime up to its
bound (`findLargestPrime_isGreatest`).
-/

import Mathlib.Data.Nat.Prime.Basic
import Mathlib.Order.Bounds.Basic
import Mathlib.Tactic.Ring

namespace EtcMiner
namespace Ethash

/-- The loop of `is_odd_prime` from the divisor `d` on. -/
def noDivisorFrom (n d : ℕ) : Bool :=
  if d * d ≤ n then
    if n % d = 0 then false else noDivisorFrom n (d + 2)
  else true
termination_by n + 1 - d
decreasing_by
  have hd : d ≤ d * d := Nat.le_mul_self d
  omega

/-- `is_odd_prime`. -/
def isOddPrime (n : ℕ) : Bool := noDivisorFrom n 3

/-- The loop of `ethash_find_largest_prime`; the numbers `0` and `1` pass the test,
having no divisor to try. -/
def firstOddPrime : ℕ → ℕ
  | n + 2 => if isOddPrime (n + 2) then n + 2 else firstOddPrime n
  | n => n

/-- `ethash_find_largest_prime`. -/
def findLargestPrime (upperBound : ℤ) : ℕ :=
  if upperBound < 2 then 0
  else if upperBound = 2 then 2
  else firstOddPrime (if upperBound % 2 = 0 then upperBound - 1 else upperBound).toNat

theorem noDivisorFrom_iff (n d : ℕ) :
    noDivisorFrom n d = true ↔ ∀ j, (d + 2 * j) * (d + 2 * j) ≤ n → ¬ (d + 2 * j) ∣ n := by
  induction d using noDivisorFrom.induct n with
  | case1 d hle hdvd =>
    rw [noDivisorFrom, if_pos hle, if_pos hdvd]
    refine ⟨fun h => absurd h Bool.false_ne_true, fun h => ?_⟩
    exact absurd (Nat.dvd_of_mod_eq_zero hdvd) (h 0 hle)
  | case2 d hle hndvd ih =>
    rw [noDivisorFrom, if_pos hle, if_neg hndvd, ih]
    constructor
    · intro h j hj
      cases j with
      | zero => exact fun hdvd => hndvd (Nat.mod_eq_zero_of_dvd hdvd)
      | succ j =>
        rw [show d + 2 * (j + 1) = d + 2 + 2 * j by ring] at hj ⊢
        exact h j hj
    · intro h j
      rw [show d + 2 + 2 * j = d + 2 * (j + 1) by ring]
      exact h (j + 1)
  | case3 d hgt =>
    rw [noDivisorFrom, if_neg hgt]
    refine ⟨fun _ j hj => absurd hj ?_, fun _ => rfl⟩
    have hsq : d * d ≤ (d + 2 * j) * (d + 2 * j) := Nat.mul_self_le_mul_self (by omega)
    omega

/-- **`is_odd_prime` is right where it is called:** on odd numbers from `3` on. -/
theorem isOddPrime_iff {n : ℕ} (hn : 3 ≤ n) (hodd : n % 2 = 1) :
    isOddPrime n = true ↔ n.Prime := by
  rw [isOddPrime, noDivisorFrom_iff, Nat.prime_def_le_sqrt]
  constructor
  · refine fun h => ⟨by omega, fun m hm hsqrt hdvd => ?_⟩
    have hmodd : m % 2 = 1 := by
      by_contra heven
      have htwo : 2 ∣ n := (Nat.dvd_of_mod_eq_zero (by omega)).trans hdvd
      omega
    have hm' : 3 + 2 * ((m - 3) / 2) = m := by omega
    have hno := h ((m - 3) / 2)
    rw [hm'] at hno
    exact hno (Nat.le_sqrt.1 hsqrt) hdvd
  · rintro ⟨-, h⟩ j hj
    exact h _ (by omega) (Nat.le_sqrt.2 hj)

/-- The search from an odd number down finds the largest prime. -/
theorem firstOddPrime_isGreatest {n : ℕ} (hn : 3 ≤ n) (hodd : n % 2 = 1) :
    IsGreatest {p : ℕ | p.Prime ∧ p ≤ n} (firstOddPrime n) := by
  induction n using firstOddPrime.induct with
  | case1 n hprime =>
    rw [firstOddPrime, if_pos hprime]
    exact ⟨⟨(isOddPrime_iff hn hodd).1 hprime, le_rfl⟩, fun p hp => hp.2⟩
  | case2 n hcomp ih =>
    have hnot : ¬ (n + 2).Prime := fun hp => hcomp ((isOddPrime_iff hn hodd).2 hp)
    have hn3 : 3 ≤ n := by
      by_contra hlt
      obtain rfl : n = 1 := by omega
      exact hnot Nat.prime_three
    obtain ⟨⟨hprime, hle⟩, hmax⟩ := ih hn3 (by omega)
    rw [firstOddPrime, if_neg hcomp]
    refine ⟨⟨hprime, by omega⟩, fun p hp => ?_⟩
    -- a prime above `n` is `n + 1`, which is even, or `n + 2`, which is not prime
    rcases Nat.lt_or_ge n p with hgt | hle'
    · have heven := hp.1.eq_two_or_odd
      have hne : p ≠ n + 2 := fun h => hnot (h ▸ hp.1)
      have := hp.2
      omega
    · exact hmax ⟨hp.1, hle'⟩
  | case3 n hsmall =>
    rcases n with _ | _ | n
    · omega
    · omega
    · exact absurd rfl (hsmall n)

/-- **`ethash_find_largest_prime` finds the largest prime** up to a bound of at
least two. -/
theorem findLargestPrime_isGreatest {n : ℕ} (hn : 2 ≤ n) :
    IsGreatest {p : ℕ | p.Prime ∧ p ≤ n} (findLargestPrime n) := by
  unfold findLargestPrime
  rw [if_neg (by omega)]
  split_ifs with htwo heven
  · obtain rfl : n = 2 := by omega
    exact ⟨⟨Nat.prime_two, le_rfl⟩, fun p hp => hp.2⟩
  · have hcast : ((n : ℤ) - 1).toNat = n - 1 := by omega
    obtain ⟨⟨hprime, hle⟩, hmax⟩ := firstOddPrime_isGreatest (n := n - 1) (by omega) (by omega)
    rw [hcast]
    refine ⟨⟨hprime, by omega⟩, fun p hp => hmax ⟨hp.1, ?_⟩⟩
    have hp2 := hp.1.eq_two_or_odd
    have := hp.2
    omega
  · rw [Int.toNat_natCast]
    exact firstOddPrime_isGreatest (by omega) (by omega)

theorem findLargestPrime_isGreatest_hundred : IsGreatest {p : ℕ | p.Prime ∧ p ≤ 100} (findLargestPrime (100 : ℕ)) :=
  findLargestPrime_isGreatest (by decide)

end Ethash
end EtcMiner
