/-
# Byte arrays of fixed size

`FixedHash` in `libdev/FixedHash.h`: an array of `N` bytes that is read as a
big-endian number where arithmetic is meant.
-/

import EtcMiner.Ethash.Hash
import Mathlib.Data.Fintype.Basic
import Mathlib.Tactic.FinCases

namespace EtcMiner
namespace Common

open Lib Ethash

/-- `FixedHash<N>`. -/
abbrev FixedHash (n : ℕ) := Fin n → Byte

/-- `h256`. -/
abbrev H256 := FixedHash 32

/-- `FixedHash::operator Arith`, the big-endian value. -/
def FixedHash.arith {n : ℕ} (h : FixedHash n) : ℕ := beValue (List.ofFn h)

/-- The loop of `FixedHash::operator<`, from the first byte on. -/
def bytesLt : List Byte → List Byte → Bool
  | a :: as, b :: bs => if a < b then true else if b < a then false else bytesLt as bs
  | _, _ => false

/-- `FixedHash::operator>`, which is `!operator<=`. -/
def FixedHash.gt {n : ℕ} (h c : FixedHash n) : Bool :=
  !(decide (h = c) || bytesLt (List.ofFn h) (List.ofFn c))

/-- `(uint64_t)(u64)((u256)h >> 192)`, the target the kernels compare with. -/
def upper64OfH256 (h : H256) : BitVec 64 := BitVec.ofNat 64 (FixedHash.arith h / 2 ^ 192)

/-- `hash256_from_bytes`. -/
def hash256FromBytes (h : H256) : Hash 8 := fun i =>
  BitVec.ofNat 32 (leValue [h ⟨4 * i, by omega⟩, h ⟨4 * i + 1, by omega⟩, h ⟨4 * i + 2, by omega⟩,
    h ⟨4 * i + 3, by omega⟩])

/-- `FixedHash(bytes, ConstructFromPointer)` of the bytes of a hash. -/
def h256OfHash (h : Hash 8) : H256 := fun i => (bytes h).getD i 0

/-- The loop of `operator<` compares the big-endian numbers. -/
theorem bytesLt_iff {as bs : List Byte} (h : as.length = bs.length) :
    bytesLt as bs = true ↔ beValue as < beValue bs := by
  induction as generalizing bs with
  | nil =>
    cases bs with
    | nil => simp [bytesLt]
    | cons b bs => cases h
  | cons a as ih =>
    cases bs with
    | nil => cases h
    | cons b bs =>
      have hlen : as.length = bs.length := Nat.succ.inj h
      rw [beValue_cons, beValue_cons, ← hlen, mul_add_lt_mul_add_iff (beValue_lt as) (hlen ▸ beValue_lt bs), bytesLt]
      by_cases hlt : a < b
      · rw [if_pos hlt]
        exact iff_of_true rfl (.inl (BitVec.lt_def.1 hlt))
      · rw [if_neg hlt]
        rw [BitVec.lt_def] at hlt
        by_cases hgt : b < a
        · rw [if_pos hgt]
          rw [BitVec.lt_def] at hgt
          exact iff_of_false (by simp) (by omega)
        · rw [if_neg hgt, ih hlen]
          rw [BitVec.lt_def] at hgt
          omega

/-- **`operator>` compares the big-endian numbers.** -/
theorem FixedHash.gt_iff {n : ℕ} (h c : FixedHash n) :
    FixedHash.gt h c = true ↔ FixedHash.arith c < FixedHash.arith h := by
  have hlen : (List.ofFn h).length = (List.ofFn c).length := by simp
  have hlt := bytesLt_iff hlen
  have heq : h = c ↔ FixedHash.arith h = FixedHash.arith c := by
    refine ⟨fun heq => heq ▸ rfl, fun heq => List.ofFn_injective ?_⟩
    exact beValue_injective hlen heq
  unfold FixedHash.arith at heq ⊢
  rw [FixedHash.gt, Bool.not_eq_true', Bool.or_eq_false_iff, decide_eq_false_iff_not, heq,
    ← Bool.not_eq_true, hlt]
  omega

/-- The bytes read from a `FixedHash` are its bytes. -/
theorem bytes_hash256FromBytes (h : H256) : bytes (hash256FromBytes h) = List.ofFn h := by
  have hword (a b c d : Byte) :
      leBytes 4 (BitVec.ofNat 32 (leValue [a, b, c, d])).toNat = [a, b, c, d] := by
    rw [BitVec.toNat_ofNat, show 2 ^ 32 = 256 ^ 4 from rfl, leBytes_mod]
    exact leBytes_leValue [a, b, c, d]
  unfold bytes hash256FromBytes
  simp only [List.ofFn_succ, List.ofFn_zero, List.flatMap_cons, List.flatMap_nil, hword]
  rfl

/-- The words of the bytes of a hash are its words. -/
theorem hash256FromBytes_h256OfHash (h : Hash 8) : hash256FromBytes (h256OfHash h) = h := by
  have hword (w : BitVec 32) (a b c d : Byte) (hw : leBytes 4 w.toNat = [a, b, c, d]) :
      BitVec.ofNat 32 (leValue [a, b, c, d]) = w := by
    rw [← hw, leValue_leBytes]
    apply BitVec.eq_of_toNat_eq
    have := w.isLt
    rw [BitVec.toNat_ofNat]
    omega
  funext i
  unfold hash256FromBytes h256OfHash bytes
  simp only [List.ofFn_succ, List.ofFn_zero, List.flatMap_cons, List.flatMap_nil]
  fin_cases i <;> exact hword _ _ _ _ _ rfl

theorem ofFn_h256OfHash (h : Hash 8) : List.ofFn (h256OfHash h) = bytes h := by
  rw [← bytes_hash256FromBytes, hash256FromBytes_h256OfHash]

end Common
end EtcMiner
