/-
# The CPU hash functions are Keccak

`keccak` in `ethash/lib/keccak/keccak.c` reads whole blocks word by word, then the words of the
rest, then its last bytes with the mark `0x01` behind them, and sets the last bit of the block.
For every message that is the sponge over the padded bits of the message (`keccak_eq_sponge`): the
words are the bits of the lanes, the mark is the first `1` of the padding and the last bit is the
second one.

With the permutation of the CPU code this makes `ethash_keccak256` and `ethash_keccak512` the
functions Keccak[512] and Keccak[1024] (`ethash_keccak_spec`).
-/

import EtcMiner.Ethash.KeccakF
import EtcMiner.Lib.Sponge

namespace EtcMiner
namespace Ethash

open Lib Sponge

/-- Xoring words into the first lanes. -/
theorem forLoop_xorLane (w : ℕ → BitVec 64) (n : ℕ) (s : State) :
    forLoop (fun i s => xorLane s i (w i)) n s = fun j => if j.val < n then s j ^^^ w j else s j := by
  refine forLoop_inv (fun i t => t = fun j => if j.val < i then s j ^^^ w j else s j) (by simp) ?_
  rintro i - t rfl
  funext j
  simp only [xorLane]
  by_cases hj : j.val = i
  · simp [hj]
  · have hiff : j.val < i + 1 ↔ j.val < i := by omega
    simp [hj, hiff]

theorem getLsbD_loadLe (data : List Byte) {t : ℕ} (ht : t < 64) :
    (loadLe data).getLsbD t = (data[t / 8]?.getD 0).getLsbD (t % 8) := by
  have hword : t / 8 < 8 := by omega
  rw [loadLe, BitVec.getLsbD_ofNat, testBit_leValue, List.getElem?_take, if_pos hword]
  simp [ht]

section Block

variable (keccakf : State → State) {words : ℕ} (data : List Byte)

/-- The lane `j` of the block `b` of the padded message. -/
def paddedLane (words : ℕ) (data : List Byte) (b : ℕ) (j : ℕ) : BitVec 64 :=
  ofBits (fun t => decide (64 * j + t < 8 * (8 * words)) &&
    ((pad10star1 (8 * (8 * words)) (bitsOf data)).drop (8 * (8 * words) * b))[64 * j + t]?.getD false) 64

theorem paddedLane_of_le {b j : ℕ} (hj : words ≤ j) : paddedLane words data b j = 0 := by
  refine BitVec.eq_of_getLsbD_eq fun t ht => ?_
  have hout : ¬ 64 * j + t < 8 * (8 * words) := by omega
  simp [paddedLane, getLsbD_ofBits, hout]

/-- The bits of a lane are those of the bytes with the mark behind them, and the last bit of the
last block. -/
theorem getLsbD_paddedLane (hpos : 0 < words) {b j t : ℕ} (hb : b ≤ data.length / (8 * words)) (hj : j < words)
    (ht : t < 64) :
    (paddedLane words data b j).getLsbD t =
      (((data ++ [1])[8 * words * b + 8 * j + t / 8]?.getD 0).getLsbD (t % 8) ^^
        (decide (b = data.length / (8 * words)) && decide (j + 1 = words) && decide (t = 63))) := by
  have hin : 64 * j + t < 8 * (8 * words) := by omega
  have hblock : 8 * (8 * words) * b = 8 * (8 * words * b) := Nat.mul_assoc _ _ _
  have hle : 8 * words * b ≤ 8 * words * (data.length / (8 * words)) := Nat.mul_le_mul_left _ hb
  have htotal : 8 * (8 * words) * (data.length / (8 * words) + 1) =
      8 * (8 * words * (data.length / (8 * words))) + 8 * (8 * words) := by
    rw [Nat.mul_succ, Nat.mul_assoc]
  have hk : 8 * (8 * words) * b + (64 * j + t) < 8 * (8 * words) * (data.length / (8 * words) + 1) := by omega
  rw [paddedLane, getLsbD_ofBits, List.getElem?_drop, getD_pad_bytes (by omega) data hk]
  have hbyte : (8 * (8 * words) * b + (64 * j + t)) / 8 = 8 * words * b + 8 * j + t / 8 := by omega
  have hbit : (8 * (8 * words) * b + (64 * j + t)) % 8 = t % 8 := by omega
  have hlast : 8 * (8 * words) * b + (64 * j + t) + 1 = 8 * (8 * words) * (data.length / (8 * words) + 1) ↔
      b = data.length / (8 * words) ∧ j + 1 = words ∧ t = 63 := by
    constructor
    · intro heq
      have hsame : b = data.length / (8 * words) := by
        by_contra hne
        have hnext : 8 * words * (b + 1) ≤ 8 * words * (data.length / (8 * words)) :=
          Nat.mul_le_mul_left _ (by omega)
        rw [Nat.mul_succ] at hnext
        omega
      rw [hsame] at heq hblock
      exact ⟨hsame, by omega, by omega⟩
    · rintro ⟨rfl, hj, ht⟩
      omega
  simp only [hbyte, hbit, hlast, ht, hin, decide_true, Bool.true_and, Bool.decide_and]
  rw [Bool.and_assoc]

/-- **A whole block**: the words of the message are the lanes. -/
theorem block_eq (hpos : 0 < words) {b : ℕ} (hb : b < data.length / (8 * words)) (s : State) :
    forLoop (fun i s => xorLane s i (loadLe (data.drop (8 * words * b + 8 * i)))) words s =
      fun j => s j ^^^ paddedLane words data b j := by
  rw [forLoop_xorLane]
  funext j
  by_cases hj : j.val < words
  · rw [if_pos hj]
    congr 1
    refine BitVec.eq_of_getLsbD_eq fun t ht => ?_
    have hne : ¬ b = data.length / (8 * words) := by omega
    have hfits : 8 * words * (b + 1) ≤ data.length :=
      (Nat.mul_le_mul_left _ hb).trans (Nat.mul_div_le data.length (8 * words))
    rw [Nat.mul_succ] at hfits
    have hmem : 8 * words * b + 8 * j + t / 8 < data.length := by omega
    rw [getLsbD_loadLe _ ht, getLsbD_paddedLane data hpos hb.le hj ht, List.getElem?_drop, List.getElem?_append,
      if_pos hmem]
    simp [hne]
  · rw [if_neg hj, paddedLane_of_le data (by omega)]
    simp

theorem getLsbD_behind {rest : List Byte} {k : ℕ} (hk : rest.length < k) (i : ℕ) :
    ((rest ++ [1])[k]?.getD 0).getLsbD i = false := by
  have hout : (rest ++ [1])[k]? = none := by
    refine List.getElem?_eq_none ?_
    rw [List.length_append, List.length_singleton]
    omega
  rw [hout]
  simp

/-- The words of the rest of the message, the last one with the mark. -/
def restWord (rest : List Byte) (j : ℕ) : BitVec 64 :=
  if j < rest.length / 8 then loadLe (rest.drop (8 * j))
  else if j = rest.length / 8 then BitVec.ofNat 64 (leValue (rest.drop (8 * (rest.length / 8)) ++ [1]))
  else 0

theorem getLsbD_restWord (rest : List Byte) (j : ℕ) {t : ℕ} (ht : t < 64) :
    (restWord rest j).getLsbD t = ((rest ++ [1])[8 * j + t / 8]?.getD 0).getLsbD (t % 8) := by
  unfold restWord
  split_ifs with hword hlast
  · have hmem : 8 * j + t / 8 < rest.length := by omega
    rw [getLsbD_loadLe _ ht, List.getElem?_drop, List.getElem?_append, if_pos hmem]
  · have hdrop : rest.drop (8 * (rest.length / 8)) ++ [1] = (rest ++ [1]).drop (8 * j) := by
      rw [hlast, List.drop_append_of_le_length (by omega)]
    rw [hdrop, BitVec.getLsbD_ofNat, testBit_leValue, List.getElem?_drop]
    simp [ht]
  · rw [getLsbD_behind (by omega)]
    simp

/-- Xoring the rest of the message into the lanes. -/
theorem xorRest_eq (rest : List Byte) (s : State) :
    xorLane (forLoop (fun i s => xorLane s i (loadLe (rest.drop (8 * i)))) (rest.length / 8) s) (rest.length / 8)
      (BitVec.ofNat 64 (leValue (rest.drop (8 * (rest.length / 8)) ++ [1]))) = fun j => s j ^^^ restWord rest j := by
  rw [forLoop_xorLane]
  funext j
  simp only [xorLane, restWord]
  rcases Nat.lt_trichotomy j.val (rest.length / 8) with hj | hj | hj
  · simp [hj, Nat.ne_of_lt hj]
  · simp [hj]
  · simp [Nat.not_lt_of_gt hj, Nat.ne_of_gt hj]

theorem getLsbD_topBit : ∀ t < 64, (0x8000000000000000 : BitVec 64).getLsbD t = decide (t = 63) := by decide

/-- **The last block**: the words of the rest, its last bytes with the mark, and the last bit. -/
theorem lastBlock_eq (hpos : 0 < words) (s : State) {rest : List Byte}
    (hrest : rest = data.drop (8 * words * (data.length / (8 * words)))) :
    xorLane (fun j => s j ^^^ restWord rest j) (words - 1) 0x8000000000000000 =
      fun j => s j ^^^ paddedLane words data (data.length / (8 * words)) j := by
  have hdiv := Nat.div_add_mod data.length (8 * words)
  have hmod := Nat.mod_lt data.length (show 0 < 8 * words by omega)
  have hlen : rest.length = data.length % (8 * words) := by
    rw [hrest, List.length_drop]
    omega
  have hbyte (x : ℕ) : (data ++ [1])[8 * words * (data.length / (8 * words)) + x]? = (rest ++ [1])[x]? := by
    rw [hrest, ← List.drop_append_of_le_length (by omega), List.getElem?_drop]
  funext j
  have hlane : xorLane (fun j => s j ^^^ restWord rest j) (words - 1) 0x8000000000000000 j =
      s j ^^^ (restWord rest j ^^^ (if j.val = words - 1 then 0x8000000000000000 else 0)) := by
    simp only [xorLane]
    split_ifs <;> simp [BitVec.xor_assoc]
  rw [hlane]
  congr 1
  refine BitVec.eq_of_getLsbD_eq fun t ht => ?_
  rw [BitVec.getLsbD_xor, getLsbD_restWord rest j ht]
  by_cases hj : j.val < words
  · rw [getLsbD_paddedLane data hpos (Nat.le_refl _) hj ht, Nat.add_assoc, hbyte]
    by_cases hlast : j.val = words - 1
    · have hsucc : j.val + 1 = words := by omega
      rw [if_pos hlast, getLsbD_topBit t ht]
      simp [hsucc]
    · have hsucc : ¬ j.val + 1 = words := by omega
      simp [hlast, hsucc]
  · have hne : ¬ j.val = words - 1 := by omega
    rw [paddedLane_of_le data (by omega), getLsbD_behind (by omega), if_neg hne]
    simp

end Block

/-- **The sponge of the CPU code.**  For every message, `keccak` is the sponge over the bits of the
message with blocks of `1600 - 2 * bits` bits. -/
theorem keccak_eq_sponge (keccakf : State → State) {bits : ℕ} (hbits : bits % 32 = 0) (hlt : bits < 800)
    (data : List Byte) : keccak keccakf bits data = sponge keccakf (1600 - 2 * bits) (bitsOf data) := by
  obtain ⟨words, hpos, hblock⟩ : ∃ words, 0 < words ∧ 1600 - bits * 2 = 64 * words :=
    ⟨(1600 - bits * 2) / 64, by omega, by omega⟩
  have hrate : (1600 - bits * 2) / 8 = 8 * words := by omega
  have hwords : 8 * words / 8 = words := by omega
  have hbitRate : 1600 - 2 * bits = 8 * (8 * words) := by omega
  have hcount : 8 * (8 * words) * (data.length / (8 * words) + 1) / (8 * (8 * words)) = data.length / (8 * words) + 1 :=
    Nat.mul_div_cancel_left _ (by omega)
  rw [sponge, hbitRate, length_pad10star1 (by omega), hcount]
  simp only [keccak, hrate, hwords]
  rw [xorRest_eq, lastBlock_eq data hpos _ rfl]
  have habsorbed : forLoop (fun b s =>
        keccakf (forLoop (fun i s => xorLane s i (loadLe (data.drop (8 * words * b + 8 * i)))) words s))
        (data.length / (8 * words)) (fun _ => 0) =
      forLoop (fun b => absorb keccakf (8 * (8 * words))
        ((pad10star1 (8 * (8 * words)) (bitsOf data)).drop (8 * (8 * words) * b)))
        (data.length / (8 * words)) fun _ => 0 := by
    refine forLoop_inv (fun n s => s = forLoop _ n fun _ => 0) rfl ?_
    rintro b hb s rfl
    rw [block_eq data hpos hb]
    rfl
  rw [habsorbed]
  rfl

theorem roundConstant_eq : ∀ i < 24, roundConstant i = BitVec.ofNat 64 (KeccakF.roundConstant 6 i) := by
  decide +kernel

/-- Keccak-f on lanes of 64 bits. -/
def keccakF1600 : State → State :=
  KeccakF.rounds wordOps (fun i => BitVec.ofNat 64 (KeccakF.roundConstant 6 i)) 24

theorem keccakf1600_eq_keccakF1600 : keccakf1600 = keccakF1600 := by
  funext state
  rw [keccakf1600_eq_rounds, KeccakF.rounds_congr wordOps roundConstant_eq, keccakF1600]

/-- **`ethash_keccak256` and `ethash_keccak512` are Keccak[512] and Keccak[1024]**: for every message,
the sponge with Keccak-f on 1600 bits and blocks of 1088 and 576 bits. -/
theorem ethash_keccak_spec (data : List Byte) :
    keccak keccakf1600 256 data = sponge keccakF1600 1088 (bitsOf data) ∧
      keccak keccakf1600 512 data = sponge keccakF1600 576 (bitsOf data) := by
  rw [keccakf1600_eq_keccakF1600]
  exact ⟨keccak_eq_sponge keccakF1600 (by decide) (by decide) data,
    keccak_eq_sponge keccakF1600 (by decide) (by decide) data⟩

end Ethash
end EtcMiner
