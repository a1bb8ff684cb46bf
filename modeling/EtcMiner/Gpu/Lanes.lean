/-
# Lanes as pairs of words

The operators `^`, `&`, `|` and `~` of the kernels on a `uint2`, and the rotation of the lane it
stands for.  Read as one word of 64 bits (`asUlong`) they are the operations of Keccak-f
(`asUlong_hom`), so what a kernel computes on pairs is what the CPU code computes on words
(`asUlong_rounds`).

A rotation by less than 32 bits mixes each half with the other one (`asUint2_rotateLeft`); one by
32 bits more is the same with the halves swapped (`rotateLeft_swap`).
-/

import EtcMiner.Ethash.KeccakF
import EtcMiner.Gpu.Types

namespace EtcMiner
namespace Gpu

open Lib Ethash

instance : XorOp Uint2 := ⟨fun a b => ⟨a.x ^^^ b.x, a.y ^^^ b.y⟩⟩

instance : AndOp Uint2 := ⟨fun a b => ⟨a.x &&& b.x, a.y &&& b.y⟩⟩

instance : OrOp Uint2 := ⟨fun a b => ⟨a.x ||| b.x, a.y ||| b.y⟩⟩

instance : Complement Uint2 := ⟨fun a => ⟨~~~a.x, ~~~a.y⟩⟩

/-- The lane `v` rotated left by `n` bits. -/
def Uint2.rotl (n : ℕ) (v : Uint2) : Uint2 := asUint2 ((asUlong v).rotateLeft n)

/-- The operations of a round on pairs. -/
def uint2Ops : KeccakF.LaneOps Uint2 where
  xor a b := a ^^^ b
  chi a b c := a ^^^ (~~~b &&& c)
  rotl := Uint2.rotl

theorem asUlong_injective {v w : Uint2} (h : asUlong v = asUlong w) : v = w := by
  rw [← asUint2_asUlong v, h, asUint2_asUlong]

theorem asUlong_xor (a b : Uint2) : asUlong (a ^^^ b) = asUlong a ^^^ asUlong b := BitVec.xor_append.symm

theorem asUlong_and (a b : Uint2) : asUlong (a &&& b) = asUlong a &&& asUlong b := BitVec.and_append.symm

theorem asUlong_or (a b : Uint2) : asUlong (a ||| b) = asUlong a ||| asUlong b := BitVec.or_append.symm

theorem asUlong_not (a : Uint2) : asUlong (~~~a) = ~~~asUlong a := BitVec.not_append.symm

/-- **A pair stands for its lane.** -/
theorem asUlong_hom : KeccakF.LaneOps.Hom uint2Ops wordOps asUlong where
  xor := asUlong_xor
  chi a b c := by
    simp only [uint2Ops, wordOps, asUlong_xor, asUlong_and, asUlong_not]
  rotl n _ a := asUlong_asUint2 _

/-- Rounds on pairs, with round constants that stand for those of the CPU code. -/
theorem asUlong_rounds {o : KeccakF.LaneOps Uint2} (ho : KeccakF.LaneOps.Hom o wordOps asUlong) {rc : ℕ → Uint2}
    {n : ℕ} (hrc : ∀ i < n, asUlong (rc i) = roundConstant i) (s : Fin 25 → Uint2) :
    (fun j => asUlong (KeccakF.rounds o rc n s j)) =
      KeccakF.rounds wordOps roundConstant n fun j => asUlong (s j) := by
  rw [ho.rounds]
  refine forLoop_inv (fun i t => t = KeccakF.rounds wordOps roundConstant i fun j => asUlong (s j)) rfl ?_
  intro i hi t ht
  rw [ht]
  exact congrArg (fun c => KeccakF.round wordOps c (KeccakF.rounds wordOps roundConstant i _)) (hrc i hi)

/-- The low half of a lane rotated by less than 32 bits. -/
theorem word32_rotateLeft_zero (lo hi : BitVec 32) {n : ℕ} (hn : n < 32) :
    word32 ((join lo hi).rotateLeft n) 0 = lo <<< n ||| hi >>> (32 - n) := by
  have hmod : n % 64 = n := Nat.mod_eq_of_lt (by omega)
  apply BitVec.eq_of_getLsbD_eq
  intro i hi'
  simp only [word32, join, BitVec.getLsbD_extractLsb', BitVec.getLsbD_rotateLeft, BitVec.getLsbD_append,
    BitVec.getLsbD_or, BitVec.getLsbD_shiftLeft, BitVec.getLsbD_ushiftRight, hmod, hi', Nat.mul_zero, Nat.zero_add,
    decide_true, Bool.true_and]
  by_cases hlow : i < n
  · simp [hlow, show ¬ 64 - n + i < 32 by omega, show 64 - n + i - 32 = 32 - n + i by omega]
  · simp [hlow, show i < 64 by omega, show i - n < 32 by omega, show 32 ≤ 32 - n + i by omega]

/-- The high half. -/
theorem word32_rotateLeft_one (lo hi : BitVec 32) {n : ℕ} (hn : n < 32) :
    word32 ((join lo hi).rotateLeft n) 1 = hi <<< n ||| lo >>> (32 - n) := by
  have hmod : n % 64 = n := Nat.mod_eq_of_lt (by omega)
  apply BitVec.eq_of_getLsbD_eq
  intro i hi'
  simp only [word32, join, BitVec.getLsbD_extractLsb', BitVec.getLsbD_rotateLeft, BitVec.getLsbD_append,
    BitVec.getLsbD_or, BitVec.getLsbD_shiftLeft, BitVec.getLsbD_ushiftRight, hmod, hi', Nat.mul_one,
    decide_true, Bool.true_and]
  by_cases hlow : i < n
  · simp [hlow, show ¬ 32 + i < n by omega, show 32 + i < 64 by omega, show 32 - n + i < 32 by omega,
      show 32 + i - n = 32 - n + i by omega]
  · simp [hlow, show ¬ 32 + i < n by omega, show 32 + i < 64 by omega, show ¬ 32 + i - n < 32 by omega,
      show 32 + i - n - 32 = i - n by omega, show 32 ≤ 32 - n + i by omega]

/-- **A rotation by less than 32 bits, half by half.** -/
theorem asUint2_rotateLeft (lo hi : BitVec 32) {n : ℕ} (hn : n < 32) :
    asUint2 ((join lo hi).rotateLeft n) = ⟨lo <<< n ||| hi >>> (32 - n), hi <<< n ||| lo >>> (32 - n)⟩ := by
  rw [asUint2, word32_rotateLeft_zero lo hi hn, word32_rotateLeft_one lo hi hn]

/-- A rotation by 32 bits swaps the halves. -/
theorem rotateLeft_swap (lo hi : BitVec 32) {n : ℕ} (hn : n < 32) :
    (join lo hi).rotateLeft (n + 32) = (join hi lo).rotateLeft n := by
  have hmod : (n + 32) % 64 = n + 32 := Nat.mod_eq_of_lt (by omega)
  have hmod' : n % 64 = n := Nat.mod_eq_of_lt (by omega)
  apply BitVec.eq_of_getLsbD_eq
  intro i hi'
  simp only [join, BitVec.getLsbD_rotateLeft, BitVec.getLsbD_append, hmod, hmod']
  rcases Nat.lt_or_ge i n with hlow | hlow
  · simp [hlow, show i < n + 32 by omega, show 32 - n + i < 32 by omega, show ¬ 64 - n + i < 32 by omega,
      show 64 - n + i - 32 = 32 - n + i by omega]
  · rcases Nat.lt_or_ge i (n + 32) with hmid | hhigh
    · simp [hmid, show ¬ i < n by omega, show ¬ 32 - n + i < 32 by omega, show i - n < 32 by omega,
        show i < 64 by omega, show 32 - n + i - 32 = i - n by omega]
    · simp [show ¬ i < n + 32 by omega, show ¬ i < n by omega, show i - (n + 32) < 32 by omega,
        show ¬ i - n < 32 by omega, show i < 64 by omega, show i - n - 32 = i - (n + 32) by omega]

end Gpu
end EtcMiner
