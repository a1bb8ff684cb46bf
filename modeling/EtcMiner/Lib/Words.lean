/-
# Little-endian words

A machine word stored in memory is the list of its bytes, least significant
first (`leBytes`); reading it back is `leValue`, and `beValue` reads bytes most
significant first.  The same bytes read as two 32-bit words or as one 64-bit word
are `word32` and `join`, the views that the unions of C code and the vector types
of GPU code take of one buffer.
-/

import Mathlib.Algebra.Order.Ring.Nat
import Mathlib.Tactic.Ring
import Mathlib.Tactic.Linarith

namespace EtcMiner
namespace Lib

abbrev Byte := BitVec 8

/-- The `n` low bytes of `w`, least significant first. -/
def leBytes : ℕ → ℕ → List Byte
  | 0, _ => []
  | n + 1, w => BitVec.ofNat 8 w :: leBytes n (w / 256)

/-- The number whose bytes, least significant first, are given. -/
def leValue : List Byte → ℕ
  | [] => 0
  | b :: bs => b.toNat + 256 * leValue bs

/-- The number whose bytes, most significant first, are given. -/
def beValue (bs : List Byte) : ℕ := bs.foldl (fun acc b => 256 * acc + b.toNat) 0

theorem beValue_eq (bs : List Byte) : beValue bs = leValue bs.reverse := by
  rw [beValue, List.foldl_eq_foldr_reverse]
  induction bs.reverse with
  | nil => rfl
  | cons b bs ih => rw [List.foldr_cons, ih, leValue]; omega

@[simp] theorem leBytes_length (n w : ℕ) : (leBytes n w).length = n := by
  induction n generalizing w with
  | zero => rfl
  | succ n ih => simp [leBytes, ih]

theorem leValue_leBytes (n w : ℕ) : leValue (leBytes n w) = w % 256 ^ n := by
  induction n generalizing w with
  | zero => simp [leBytes, leValue, Nat.mod_one]
  | succ n ih =>
    rw [leBytes, leValue, ih, BitVec.toNat_ofNat, pow_succ' 256, Nat.mod_mul]

theorem leValue_lt (bs : List Byte) : leValue bs < 256 ^ bs.length := by
  induction bs with
  | nil => simp [leValue]
  | cons b bs ih =>
    have hb := b.isLt
    rw [leValue, List.length_cons, pow_succ']
    omega

theorem leValue_append (bs bs' : List Byte) :
    leValue (bs ++ bs') = leValue bs + 256 ^ bs.length * leValue bs' := by
  induction bs with
  | nil => simp [leValue]
  | cons b bs ih =>
    rw [List.cons_append, leValue, leValue, ih, List.length_cons, pow_succ']
    ring

/-- The bytes of a word depend on its low bits alone. -/
theorem leBytes_mod (n w : ℕ) : leBytes n (w % 256 ^ n) = leBytes n w := by
  induction n generalizing w with
  | zero => rfl
  | succ n ih =>
    rw [leBytes, leBytes, ← ih (w / 256), pow_succ', ← Nat.mod_mul_right_div_self]
    congr 1
    apply BitVec.eq_of_toNat_eq
    simp only [BitVec.toNat_ofNat, Nat.reducePow]
    rw [Nat.mod_mul_right_mod]

/-- The bytes of a word are those of its low part followed by those of its high
part. -/
theorem leBytes_add (m n w : ℕ) : leBytes (m + n) w = leBytes m w ++ leBytes n (w / 256 ^ m) := by
  induction m generalizing w with
  | zero => simp [leBytes]
  | succ m ih =>
    rw [Nat.succ_add, leBytes, ih, leBytes, List.cons_append, pow_succ', Nat.div_div_eq_div_mul]

/-- Bytes are the bytes of the number they form. -/
theorem leBytes_leValue (bs : List Byte) : leBytes bs.length (leValue bs) = bs := by
  induction bs with
  | nil => rfl
  | cons b bs ih =>
    have hb := b.isLt
    have hquot : (b.toNat + 256 * leValue bs) / 256 = leValue bs := by omega
    rw [List.length_cons, leValue, leBytes, hquot, ih]
    congr 1
    apply BitVec.eq_of_toNat_eq
    rw [BitVec.toNat_ofNat]
    omega

theorem beValue_lt (bs : List Byte) : beValue bs < 256 ^ bs.length := by
  rw [beValue_eq, ← List.length_reverse]
  exact leValue_lt bs.reverse

theorem beValue_append (bs bs' : List Byte) :
    beValue (bs ++ bs') = beValue bs * 256 ^ bs'.length + beValue bs' := by
  rw [beValue_eq, beValue_eq bs, beValue_eq bs', List.reverse_append, leValue_append, List.length_reverse]
  ring

theorem beValue_cons (b : Byte) (bs : List Byte) : beValue (b :: bs) = b.toNat * 256 ^ bs.length + beValue bs := by
  rw [← List.singleton_append, beValue_append]
  simp [beValue]

theorem beValue_append_singleton (bs : List Byte) (b : Byte) :
    beValue (bs ++ [b]) = 256 * beValue bs + b.toNat := by
  rw [beValue, List.foldl_append, ← beValue]
  rfl

/-- Bytes of one length that form the same number are the same. -/
theorem beValue_injective {as bs : List Byte} (h : as.length = bs.length) (heq : beValue as = beValue bs) :
    as = bs := by
  rw [beValue_eq, beValue_eq] at heq
  have has := leBytes_leValue as.reverse
  rw [heq, List.length_reverse, h, ← List.length_reverse, leBytes_leValue] at has
  exact (List.reverse_inj.1 has).symm

/-- **Two numbers are compared by their high parts first.** -/
theorem mul_add_lt_mul_add_iff {base a b : ℕ} (ha : a < base) (hb : b < base) (x y : ℕ) :
    x * base + a < y * base + b ↔ x < y ∨ x = y ∧ a < b := by
  rcases lt_trichotomy x y with hlt | rfl | hgt
  · have hle : (x + 1) * base ≤ y * base := Nat.mul_le_mul_right base hlt
    rw [Nat.succ_mul] at hle
    exact iff_of_true (by omega) (.inl hlt)
  · omega
  · have hle : (y + 1) * base ≤ x * base := Nat.mul_le_mul_right base hgt
    rw [Nat.succ_mul] at hle
    exact iff_of_false (by omega) (by omega)

/-- Half `k` of a 64-bit word: `0` for the low half, `1` for the high one. -/
def word32 (w : BitVec 64) (k : ℕ) : BitVec 32 := w.extractLsb' (32 * k) 32

/-- The 64-bit word with the given low and high halves. -/
def join (lo hi : BitVec 32) : BitVec 64 := hi ++ lo

theorem toNat_word32 (w : BitVec 64) (k : ℕ) : (word32 w k).toNat = w.toNat / 2 ^ (32 * k) % 2 ^ 32 := by
  simp [word32, Nat.shiftRight_eq_div_pow]

theorem toNat_join (lo hi : BitVec 32) : (join lo hi).toNat = hi.toNat * 2 ^ 32 + lo.toNat := by
  rw [join, BitVec.toNat_append, ← Nat.shiftLeft_add_eq_or_of_lt lo.isLt, Nat.shiftLeft_eq]

@[simp] theorem word32_join_zero (lo hi : BitVec 32) : word32 (join lo hi) 0 = lo := by
  apply BitVec.eq_of_toNat_eq
  rw [toNat_word32, toNat_join]
  have := lo.isLt
  omega

@[simp] theorem word32_join_one (lo hi : BitVec 32) : word32 (join lo hi) 1 = hi := by
  apply BitVec.eq_of_toNat_eq
  rw [toNat_word32, toNat_join]
  have := lo.isLt
  have := hi.isLt
  omega

@[simp] theorem join_word32 (w : BitVec 64) : join (word32 w 0) (word32 w 1) = w := by
  apply BitVec.eq_of_toNat_eq
  rw [toNat_join, toNat_word32, toNat_word32]
  have := w.isLt
  omega

/-- The bytes of two adjacent 32-bit words are those of the 64-bit word they
form. -/
theorem leBytes_join (lo hi : BitVec 32) :
    leBytes 4 lo.toNat ++ leBytes 4 hi.toNat = leBytes 8 (join lo hi).toNat := by
  have hlo := lo.isLt
  rw [show (8 : ℕ) = 4 + 4 from rfl, leBytes_add, toNat_join, ← leBytes_mod 4 (_ + _)]
  congr 2 <;> norm_num <;> omega

end Lib
end EtcMiner
