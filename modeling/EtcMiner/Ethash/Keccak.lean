/-
# The Keccak sponge of the CPU code

`keccak` in `ethash/lib/keccak/keccak.c`, over the permutation `keccakf` of 25
64-bit lanes: whole blocks of `block_size` bytes are xored in and permuted, then
the rest of the message, the byte `0x01` after it and the bit `0x80…0` at the end
of the block are xored in and the state is permuted once more.

A message of fewer than `block_size / 8` whole 64-bit words never fills a block,
so its hash is one permutation of the words followed by the two padding marks
(`keccak_wordBytes`).  That is the state the GPU kernels write down lane by lane.
-/

import EtcMiner.Lib.KeccakF
import EtcMiner.Lib.Words

namespace EtcMiner
namespace Ethash

open Lib

/-- The sizes of the arrays of words, as instances with a name for their indices to refer
to. -/
instance neZero_four : NeZero 4 := ⟨by decide⟩

instance neZero_eight : NeZero 8 := ⟨by decide⟩

instance neZero_sixteen : NeZero 16 := ⟨by decide⟩

instance neZero_thirtyTwo : NeZero 32 := ⟨by decide⟩

/-- `uint64_t state[25]`. -/
abbrev State := Fin 25 → BitVec 64

/-- `state[i] ^= w`. -/
def xorLane (s : State) (i : ℕ) (w : BitVec 64) : State :=
  fun j => if j.val = i then s j ^^^ w else s j

/-- `load_le`: the 64-bit little-endian number at the start of `data`. -/
def loadLe (data : List Byte) : BitVec 64 := BitVec.ofNat 64 (leValue (data.take 8))

/-- `keccak(out, bits, data, size)`.  The state is returned whole; `out` is its
first `bits / 64` lanes. -/
def keccak (keccakf : State → State) (bits : ℕ) (data : List Byte) : State :=
  let blockSize := (1600 - bits * 2) / 8
  let blocks := data.length / blockSize
  let absorbed := forLoop (fun b s =>
    keccakf (forLoop (fun i s => xorLane s i (loadLe (data.drop (blockSize * b + 8 * i))))
      (blockSize / 8) s)) blocks fun _ => 0
  let rest := data.drop (blockSize * blocks)
  let s := forLoop (fun i s => xorLane s i (loadLe (rest.drop (8 * i)))) (rest.length / 8) absorbed
  let lastWord := BitVec.ofNat 64 (leValue (rest.drop (8 * (rest.length / 8)) ++ [1]))
  let s := xorLane s (rest.length / 8) lastWord
  keccakf (xorLane s (blockSize / 8 - 1) 0x8000000000000000)

/-- The bytes of a buffer of 64-bit words. -/
def wordBytes (ws : List (BitVec 64)) : List Byte := ws.flatMap fun w => leBytes 8 w.toNat

theorem length_wordBytes (ws : List (BitVec 64)) : (wordBytes ws).length = 8 * ws.length := by
  induction ws with
  | nil => rfl
  | cons w ws ih => simp [wordBytes] at ih ⊢; omega

theorem drop_wordBytes (ws : List (BitVec 64)) (i : ℕ) :
    (wordBytes ws).drop (8 * i) = wordBytes (ws.drop i) := by
  induction i generalizing ws with
  | zero => simp
  | succ i ih =>
    cases ws with
    | nil => simp [wordBytes]
    | cons w ws =>
      have hw : (wordBytes (w :: ws)).drop 8 = wordBytes ws := List.drop_left' (leBytes_length 8 _)
      rw [List.drop_succ_cons, ← ih, Nat.mul_succ, Nat.add_comm, ← List.drop_drop, hw]

/-- Word `i` of a buffer is what `load_le` reads at its address. -/
theorem loadLe_wordBytes (ws : List (BitVec 64)) (i : Fin ws.length) :
    loadLe ((wordBytes ws).drop (8 * i)) = ws.get i := by
  have hcons : ws.drop i = ws.get i :: ws.drop (i + 1) := List.drop_eq_getElem_cons i.isLt
  rw [drop_wordBytes, hcons, loadLe, wordBytes, List.flatMap_cons,
    List.take_left' (leBytes_length 8 _), leValue_leBytes]
  apply BitVec.eq_of_toNat_eq
  rw [BitVec.toNat_ofNat]
  have := (ws.get i).isLt
  omega

/-- Xoring a buffer of words into the zero state leaves the words in their lanes. -/
theorem absorb_wordBytes (ws : List (BitVec 64)) :
    forLoop (fun i s => xorLane s i (loadLe ((wordBytes ws).drop (8 * i)))) ws.length (fun _ => 0)
      = fun j : Fin 25 => ws.getD j 0 := by
  have hinv := @forLoop_inv State (fun i s => xorLane s i (loadLe ((wordBytes ws).drop (8 * i))))
    ws.length (fun _ => 0) (fun i s => ∀ j : Fin 25, s j = if j.val < i then ws.getD j 0 else 0)
    (fun j => by simp) fun i hi s hs j => by
      have hload := loadLe_wordBytes ws ⟨i, hi⟩
      simp only at hload
      simp only [xorLane, hs, hload]
      by_cases hj : j.val = i
      · simp [hj, hi]
      · rw [if_neg hj]
        exact if_congr (by omega) rfl rfl
  funext j
  rw [hinv j]
  by_cases hj : j.val < ws.length
  · rw [if_pos hj]
  · simp [hj]

/-- The state a message of `ws.length` words is permuted in, for blocks of `rate`
words. -/
def padded (rate : ℕ) (ws : List (BitVec 64)) : State := fun j =>
  ws.getD j 0 ^^^ (if j.val = ws.length then 1 else 0) ^^^
    (if j.val = rate - 1 then 0x8000000000000000 else 0)

/-- **A message shorter than a block costs one permutation.** -/
theorem keccak_wordBytes (keccakf : State → State) (bits : ℕ) (ws : List (BitVec 64))
    (h : ws.length < (1600 - bits * 2) / 8 / 8) :
    keccak keccakf bits (wordBytes ws) = keccakf (padded ((1600 - bits * 2) / 8 / 8) ws) := by
  have hblocks : 8 * ws.length / ((1600 - bits * 2) / 8) = 0 := Nat.div_eq_of_lt (by omega)
  have hwords : 8 * ws.length / 8 = ws.length := by omega
  have hmark : leValue (wordBytes [] ++ [1]) = 1 := rfl
  simp only [keccak, length_wordBytes, hblocks, Nat.mul_zero, List.drop_zero, hwords,
    forLoop_zero]
  rw [absorb_wordBytes, drop_wordBytes, List.drop_length, hmark]
  congr 1
  funext j
  simp only [xorLane, padded]
  split_ifs <;> simp

end Ethash
end EtcMiner
