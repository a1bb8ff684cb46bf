/-
# Hashing and verifying

`ethash_hash` and `ethash_verify` in `ethash/lib/ethash/ethash.cpp` with the comparisons of
`ethash-internal.hpp`.  A hash is compared word by word, each 64-bit word with its bytes
swapped; that compares the hashes as big-endian numbers (`isLessOrEqual_iff`).  So the result of
`ethash_hash` verifies exactly when its final hash is at most the boundary
(`ethashVerify_ethashHash`).
-/

import EtcMiner.Ethash.Hash

namespace EtcMiner
namespace Ethash

open Lib

/-- `be::uint64`: the word with its bytes in the other order. -/
def beUint64 (w : BitVec 64) : BitVec 64 := BitVec.ofNat 64 (beValue (leBytes 8 w.toNat))

/-- The loop of `is_less_or_equal`, from the first word on. -/
def wordsLe : List (BitVec 64) → List (BitVec 64) → Bool
  | a :: as, b :: bs =>
    if beUint64 b < beUint64 a then false else if beUint64 a < beUint64 b then true else wordsLe as bs
  | _, _ => true

/-- `is_less_or_equal`. -/
def isLessOrEqual (a b : Hash 8) : Bool := wordsLe (lanes (m := 4) a) (lanes (m := 4) b)

/-- `is_equal`, a `memcmp`. -/
def isEqual (a b : Hash 8) : Bool := decide (bytes a = bytes b)

/-- What `hash_kernel` reads of an epoch context: the number of items of the dataset, and the
items. -/
structure Dataset where
  fullDatasetNumItems : BitVec 32
  item1024 : BitVec 32 → Hash 32

/-- `ethash_result`. -/
structure Result where
  finalHash : Hash 8
  mixHash : Hash 8

section Keccak

variable (keccakf : State → State) (context : Dataset) (headerHash : Hash 8) (nonce : BitVec 64)

/-- `ethash_hash`. -/
def ethashHash : Result :=
  let seed := hashSeed keccakf headerHash nonce
  let mixHash := hashKernel context.fullDatasetNumItems context.item1024 seed
  ⟨hashFinal keccakf seed mixHash, mixHash⟩

/-- `ethash_verify`. -/
def ethashVerify (mixHash boundary : Hash 8) : Bool :=
  let seed := hashSeed keccakf headerHash nonce
  if !isLessOrEqual (hashFinal keccakf seed mixHash) boundary then false
  else isEqual (hashKernel context.fullDatasetNumItems context.item1024 seed) mixHash

end Keccak

theorem toNat_beUint64 (w : BitVec 64) : (beUint64 w).toNat = beValue (leBytes 8 w.toNat) := by
  have hlt := beValue_lt (leBytes 8 w.toNat)
  rw [leBytes_length] at hlt
  exact Nat.mod_eq_of_lt hlt

/-- The loop compares the bytes of the words as big-endian numbers. -/
theorem wordsLe_iff {as bs : List (BitVec 64)} (h : as.length = bs.length) :
    wordsLe as bs = true ↔ beValue (wordBytes as) ≤ beValue (wordBytes bs) := by
  induction as generalizing bs with
  | nil =>
    cases bs with
    | nil => simp [wordsLe]
    | cons b bs => cases h
  | cons a as ih =>
    cases bs with
    | nil => cases h
    | cons b bs =>
      have hlen : as.length = bs.length := Nat.succ.inj h
      have hbytes : (wordBytes as).length = (wordBytes bs).length := by
        rw [length_wordBytes, length_wordBytes, hlen]
      have hsplit (c : BitVec 64) (cs : List (BitVec 64)) : beValue (wordBytes (c :: cs)) =
          (beUint64 c).toNat * 256 ^ (wordBytes cs).length + beValue (wordBytes cs) := by
        rw [toNat_beUint64, ← beValue_append]
        rfl
      have hcompare := mul_add_lt_mul_add_iff (hbytes ▸ beValue_lt (wordBytes bs)) (beValue_lt (wordBytes as))
        (beUint64 b).toNat (beUint64 a).toNat
      rw [hsplit, hsplit, ← hbytes, ← not_lt, hcompare, wordsLe]
      by_cases hgt : beUint64 b < beUint64 a
      · rw [if_pos hgt]
        exact iff_of_false (by simp) (not_not.2 (.inl (BitVec.lt_def.1 hgt)))
      · rw [if_neg hgt]
        rw [BitVec.lt_def] at hgt
        by_cases hlt : beUint64 a < beUint64 b
        · rw [if_pos hlt]
          rw [BitVec.lt_def] at hlt
          exact iff_of_true rfl (by omega)
        · rw [if_neg hlt, ih hlen]
          rw [BitVec.lt_def] at hlt
          omega

/-- **`is_less_or_equal` compares big-endian numbers.** -/
theorem isLessOrEqual_iff (a b : Hash 8) :
    isLessOrEqual a b = true ↔ beValue (bytes a) ≤ beValue (bytes b) := by
  rw [isLessOrEqual, wordsLe_iff (by simp [lanes]), ← bytes_eq_wordBytes (m := 4),
    ← bytes_eq_wordBytes (m := 4)]

/-- **The result of `ethash_hash` verifies** exactly when the final hash, read as a big-endian
number, is at most the boundary. -/
theorem ethashVerify_ethashHash (keccakf : State → State) (context : Dataset) (headerHash : Hash 8)
    (nonce : BitVec 64) (boundary : Hash 8) :
    ethashVerify keccakf context headerHash nonce (ethashHash keccakf context headerHash nonce).mixHash
        boundary = true ↔
      beValue (bytes (ethashHash keccakf context headerHash nonce).finalHash) ≤ beValue (bytes boundary) := by
  rw [← isLessOrEqual_iff]
  simp only [ethashVerify, ethashHash, isEqual, decide_true]
  cases isLessOrEqual _ boundary <;> simp

end Ethash
end EtcMiner
