/-
# Sponges over lanes

The sponge construction on strings of bits: a message is padded to whole blocks of `r` bits by
`1 0 … 0 1`, the blocks are added to the first `r` bits of the state one after the other, and the
state is permuted after each.  The state is `n` lanes of `w` bits, bit `k` of the state being bit
`k % w` of lane `k / w`; bytes are strings of bits with the least significant bit first.

The programs that compute it read a message byte by byte or word by word.  A bit of such a word is
a bit of the message (`testBit_leValue`), and a bit of the padded message is one of the message or
one of the two marks (`getD_pad10star1`).
-/

import EtcMiner.Lib.Loops
import EtcMiner.Lib.Words

namespace EtcMiner
namespace Lib
namespace Sponge

/-- The word whose bits are those of `f`. -/
def ofBits (f : ℕ → Bool) : (w : ℕ) → BitVec w
  | 0 => 0#0
  | w + 1 => (ofBits f w).cons (f w)

theorem getLsbD_ofBits (f : ℕ → Bool) (w t : ℕ) : (ofBits f w).getLsbD t = (decide (t < w) && f t) := by
  induction w with
  | zero => simp [ofBits]
  | succ w ih =>
    rw [ofBits, BitVec.getLsbD_cons, ih]
    by_cases ht : t = w
    · simp [ht]
    · have hiff : t < w + 1 ↔ t < w := by omega
      simp [ht, hiff]

/-- The bits of a string of bytes. -/
def bitsOf (bs : List Byte) : List Bool := bs.flatMap fun b => (List.range 8).map b.getLsbD

theorem length_bitsOf (bs : List Byte) : (bitsOf bs).length = 8 * bs.length := by
  induction bs with
  | nil => rfl
  | cons b bs ih =>
    rw [bitsOf, List.flatMap_cons, List.length_append, ← bitsOf, ih, List.length_map, List.length_range,
      List.length_cons]
    omega

theorem getD_bitsOf (bs : List Byte) (k : ℕ) :
    (bitsOf bs)[k]?.getD false = (bs[k / 8]?.getD 0).getLsbD (k % 8) := by
  induction bs generalizing k with
  | nil => simp [bitsOf]
  | cons b bs ih =>
    rw [bitsOf, List.flatMap_cons, List.getElem?_append, ← bitsOf, List.length_map, List.length_range]
    by_cases hk : k < 8
    · rw [if_pos hk, List.getElem?_map, List.getElem?_range hk, Nat.div_eq_of_lt hk, Nat.mod_eq_of_lt hk]
      rfl
    · have hdiv : k / 8 = (k - 8) / 8 + 1 := by omega
      have hmod : (k - 8) % 8 = k % 8 := by omega
      rw [if_neg hk, ih, hdiv, hmod, List.getElem?_cons_succ]

/-- A bit of a word is a bit of one of its bytes. -/
theorem testBit_leValue (bs : List Byte) (t : ℕ) :
    (leValue bs).testBit t = (bs[t / 8]?.getD 0).getLsbD (t % 8) := by
  induction bs generalizing t with
  | nil => simp [leValue]
  | cons b bs ih =>
    have hsplit : leValue (b :: bs) = 2 ^ 8 * leValue bs + b.toNat := by
      rw [leValue]
      omega
    rw [hsplit, Nat.testBit_two_pow_mul_add _ b.isLt, ih]
    by_cases ht : t < 8
    · rw [if_pos ht, Nat.div_eq_of_lt ht, Nat.mod_eq_of_lt ht, BitVec.testBit_toNat]
      rfl
    · have hdiv : t / 8 = (t - 8) / 8 + 1 := by omega
      have hmod : (t - 8) % 8 = t % 8 := by omega
      rw [if_neg ht, hdiv, hmod, List.getElem?_cons_succ]

/-- The message, `1`, as few zeros as possible, and `1`, up to a multiple of `r` bits. -/
def pad10star1 (r : ℕ) (m : List Bool) : List Bool :=
  m ++ true :: (List.replicate ((r - (m.length + 2) % r) % r) false ++ [true])

theorem getD_pad10star1 (r : ℕ) (m : List Bool) {k : ℕ} (hk : k < (pad10star1 r m).length) :
    (pad10star1 r m)[k]?.getD false =
      if k < m.length then m[k]?.getD false else decide (k = m.length) || decide (k + 1 = (pad10star1 r m).length) := by
  simp only [pad10star1, List.length_append, List.length_cons, List.length_replicate, List.length_nil] at hk ⊢
  rw [List.getElem?_append]
  by_cases hm : k < m.length
  · rw [if_pos hm, if_pos hm]
  · rw [if_neg hm, if_neg hm]
    obtain ⟨i, rfl⟩ := Nat.exists_eq_add_of_le (Nat.le_of_not_lt hm)
    rw [Nat.add_sub_cancel_left]
    cases i with
    | zero => simp
    | succ i =>
      rw [List.getElem?_cons_succ, List.getElem?_append, List.length_replicate]
      by_cases hi : i < (r - (m.length + 2) % r) % r
      · have hne : ¬ m.length + (i + 1) + 1 = m.length + ((r - (m.length + 2) % r) % r + (0 + 1) + 1) := by omega
        simp [hi, hne]
      · obtain rfl : i = (r - (m.length + 2) % r) % r := by omega
        have hlast : m.length + ((r - (m.length + 2) % r) % r + 1) + 1 =
            m.length + ((r - (m.length + 2) % r) % r + (0 + 1) + 1) := by omega
        simp [hlast]

/-- A message of whole bytes is padded to the next multiple of the block. -/
theorem length_pad10star1 {rate : ℕ} (hrate : 0 < rate) (bs : List Byte) :
    (pad10star1 (8 * rate) (bitsOf bs)).length = 8 * rate * (bs.length / rate + 1) := by
  have hdiv := Nat.div_add_mod bs.length rate
  have hmod := Nat.mod_lt bs.length hrate
  have hrest : (8 * bs.length + 2) % (8 * rate) = 8 * (bs.length % rate) + 2 := by
    have hsplit : 8 * bs.length + 2 = 8 * (bs.length % rate) + 2 + 8 * rate * (bs.length / rate) := by
      rw [Nat.mul_assoc]
      omega
    rw [hsplit, Nat.add_mul_mod_self_left, Nat.mod_eq_of_lt (by omega)]
  have hzeros : (8 * rate - (8 * (bs.length % rate) + 2)) % (8 * rate) = 8 * rate - (8 * (bs.length % rate) + 2) :=
    Nat.mod_eq_of_lt (by omega)
  simp only [pad10star1, List.length_append, List.length_cons, List.length_replicate, List.length_nil, length_bitsOf,
    hrest, hzeros]
  rw [Nat.mul_succ, Nat.mul_assoc]
  omega

theorem getLsbD_one {i : ℕ} : (1 : Byte).getLsbD i = decide (i = 0) := by
  simp

/-- **The padding of bytes** is the byte `0x01` behind the message, zeros, and the last bit of the
last block. -/
theorem getD_pad_bytes {rate : ℕ} (hrate : 0 < rate) (bs : List Byte) {k : ℕ}
    (hk : k < 8 * rate * (bs.length / rate + 1)) :
    (pad10star1 (8 * rate) (bitsOf bs))[k]?.getD false =
      (((bs ++ [1])[k / 8]?.getD 0).getLsbD (k % 8) ^^ decide (k + 1 = 8 * rate * (bs.length / rate + 1))) := by
  have hlen := length_pad10star1 hrate bs
  rw [getD_pad10star1 _ _ (hlen.symm ▸ hk), hlen, length_bitsOf, getD_bitsOf, List.getElem?_append]
  have hdiv := Nat.div_add_mod bs.length rate
  have hmod := Nat.mod_lt bs.length hrate
  have htotal : 8 * rate * (bs.length / rate + 1) = 8 * (rate * (bs.length / rate)) + 8 * rate := by
    rw [Nat.mul_succ, Nat.mul_assoc]
  rw [htotal] at hk ⊢
  by_cases hin : k < 8 * bs.length
  · have hlast : ¬ k + 1 = 8 * (rate * (bs.length / rate)) + 8 * rate := by omega
    rw [if_pos hin, if_pos (show k / 8 < bs.length by omega)]
    simp [hlast]
  · rw [if_neg hin, if_neg (show ¬ k / 8 < bs.length by omega)]
    by_cases hmark : k / 8 = bs.length
    · rw [hmark, Nat.sub_self, List.getElem?_cons_zero, Option.getD_some, getLsbD_one]
      by_cases hbit : k = 8 * bs.length
      · subst hbit
        have hlast : ¬ 8 * bs.length + 1 = 8 * (rate * (bs.length / rate)) + 8 * rate := by omega
        simp [hlast]
      · have hone : ¬ k % 8 = 0 := by omega
        simp [hbit, hone]
    · obtain ⟨i, hi⟩ : ∃ i, k / 8 - bs.length = i + 1 := ⟨k / 8 - bs.length - 1, by omega⟩
      have hbit : ¬ k = 8 * bs.length := by omega
      rw [hi]
      simp [hbit]

section Construction

variable {n w : ℕ} (f : (Fin n → BitVec w) → Fin n → BitVec w) (r : ℕ)

/-- A block is added to the first `r` bits of the state, and the state is permuted. -/
def absorb (block : List Bool) (s : Fin n → BitVec w) : Fin n → BitVec w :=
  f fun j => s j ^^^ ofBits (fun t => decide (w * j + t < r) && block[w * j + t]?.getD false) w

/-- The state after all blocks of the padded message. -/
def sponge (m : List Bool) : Fin n → BitVec w :=
  forLoop (fun b => absorb f r ((pad10star1 r m).drop (r * b))) ((pad10star1 r m).length / r) fun _ => 0#w

end Construction

end Sponge
end Lib
end EtcMiner
