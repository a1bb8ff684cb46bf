/-
# The arithmetic of byte arrays of fixed size

The operators of `FixedHash` in `libdev/FixedHash.h`, with `toBigEndian` and `fromBigEndian` in
`libdev/CommonData.h`.  `Arith` is the unsigned integer of `N * 8` bits that wraps; the bytes are
read most significant first.

Each loop is described by the number its bytes form: the conversions are inverse to each other, the
comparisons are those of the numbers, and `++` adds one modulo `256 ^ N`
(`FixedHash.arithmetic_faithful`).  For 32 bytes the equality that compares four 64-bit words and
`is_less_or_equal` of ethash on the same bytes agree with them.
-/

import EtcMiner.Common.FixedHash
import EtcMiner.Ethash.Verify
import Mathlib.Data.List.Induction

namespace EtcMiner
namespace Common

open Lib Ethash

/-- `FixedHash::Arith`. -/
abbrev Arith (n : ℕ) := BitVec (8 * n)

/-- The loop of `toBigEndian`, with `i` bytes left to write. -/
def toBigEndianLoop {w : ℕ} : ℕ → BitVec w → List Byte → List Byte
  | 0, _, out => out
  | i + 1, val, out => toBigEndianLoop i (val >>> 8) (out.set i ((val &&& 0xff#w).setWidth 8))

/-- `toBigEndian(_val, o_out)`. -/
def toBigEndian {w : ℕ} (val : BitVec w) (out : List Byte) : List Byte := toBigEndianLoop out.length val out

/-- `fromBigEndian`. -/
def fromBigEndian (w : ℕ) (bytes : List Byte) : BitVec w :=
  bytes.foldl (fun ret b => ret <<< 8 ||| b.setWidth w) 0

/-- The loop of `operator++`, with `i` bytes before the carry. -/
def incrementLoop : ℕ → List Byte → List Byte
  | 0, data => data
  | i + 1, data =>
    let b := data.getD i 0 + 1
    if b = 0 then incrementLoop i (data.set i b) else data.set i b

namespace FixedHash

variable {n : ℕ}

/-- The array of the given bytes. -/
def ofList (bs : List Byte) : FixedHash n := fun i => bs.getD i 0

/-- `FixedHash(Arith const&)`. -/
def ofArith (val : Arith n) : FixedHash n := ofList (toBigEndian val (List.replicate n 0))

/-- `operator Arith`. -/
def toArith (h : FixedHash n) : Arith n := fromBigEndian (8 * n) (List.ofFn h)

/-- `operator==`. -/
def equal (h c : FixedHash n) : Bool := decide (h = c)

/-- `operator<`. -/
def lt (h c : FixedHash n) : Bool := bytesLt (List.ofFn h) (List.ofFn c)

/-- `operator>=`. -/
def ge (h c : FixedHash n) : Bool := !lt h c

/-- `operator<=`. -/
def le (h c : FixedHash n) : Bool := equal h c || lt h c

/-- `operator++`. -/
def increment (h : FixedHash n) : FixedHash n := ofList (incrementLoop n (List.ofFn h))

end FixedHash

/-- `FixedHash<32>::operator==`, which compares four words. -/
def equal256 (h c : H256) : Bool :=
  let hash1 := lanes (m := 4) (hash256FromBytes h)
  let hash2 := lanes (m := 4) (hash256FromBytes c)
  hash1.getD 0 0 == hash2.getD 0 0 && hash1.getD 1 0 == hash2.getD 1 0 && hash1.getD 2 0 == hash2.getD 2 0 &&
    hash1.getD 3 0 == hash2.getD 3 0

section Loops

/-- The low byte of a number. -/
theorem setWidth_and_ff {w : ℕ} (val : BitVec w) : ((val &&& 0xff#w).setWidth 8 : Byte) = BitVec.ofNat 8 val.toNat := by
  ext i hi
  have hff : Nat.testBit 255 i = true := by
    rw [show 255 = 2 ^ 8 - 1 from rfl, Nat.testBit_two_pow_sub_one]
    exact decide_eq_true hi
  rw [BitVec.getElem_setWidth, BitVec.getLsbD_and, BitVec.getLsbD_ofNat, BitVec.getElem_eq_testBit_toNat,
    BitVec.toNat_ofNat, Nat.testBit_mod_two_pow, decide_eq_true hi, hff, Bool.true_and, Bool.and_true,
    BitVec.testBit_toNat]
  by_cases hw : i < w
  · rw [decide_eq_true hw, Bool.and_true]
  · rw [BitVec.getLsbD_of_ge val i (by omega), Bool.false_and]

/-- `toBigEndian` writes the low bytes of the number, the last one last. -/
theorem toBigEndianLoop_eq {w : ℕ} (i : ℕ) (val : BitVec w) (out : List Byte) (h : i ≤ out.length) :
    toBigEndianLoop i val out = (leBytes i val.toNat).reverse ++ out.drop i := by
  induction i generalizing val out with
  | zero => rfl
  | succ i ih =>
    have hshift : (val >>> 8).toNat = val.toNat / 256 := by
      rw [BitVec.toNat_ushiftRight, Nat.shiftRight_eq_div_pow]
    have hdrop (b : Byte) : (out.set i b).drop i = b :: out.drop (i + 1) := by
      rw [List.drop_set, if_neg (lt_irrefl i), Nat.sub_self, List.drop_eq_getElem_cons h]
      rfl
    rw [toBigEndianLoop, ih _ _ (by rw [List.length_set]; omega), hshift, hdrop, setWidth_and_ff, leBytes,
      List.reverse_cons, List.append_assoc]
    rfl

theorem toBigEndian_eq {w : ℕ} (val : BitVec w) (out : List Byte) :
    toBigEndian val out = (leBytes out.length val.toNat).reverse := by
  rw [toBigEndian, toBigEndianLoop_eq _ _ _ le_rfl, List.drop_length, List.append_nil]

/-- One more byte, where nothing is shifted out. -/
theorem toNat_shiftLeft_or {w : ℕ} (ret : BitVec w) (b : Byte) (h : 256 * ret.toNat + b.toNat < 2 ^ w) :
    (ret <<< 8 ||| b.setWidth w).toNat = 256 * ret.toNat + b.toNat := by
  have hb := b.isLt
  have hret : ret.toNat <<< 8 = 256 * ret.toNat := by
    rw [Nat.shiftLeft_eq]
    omega
  rw [BitVec.toNat_or, BitVec.toNat_shiftLeft, BitVec.toNat_setWidth, Nat.mod_eq_of_lt (by omega : b.toNat < 2 ^ w),
    Nat.mod_eq_of_lt (by omega : ret.toNat <<< 8 < 2 ^ w), ← Nat.shiftLeft_add_eq_or_of_lt hb, hret]

/-- **`fromBigEndian` reads the number of the bytes**, if it fits. -/
theorem toNat_fromBigEndian {n : ℕ} {bs : List Byte} (h : bs.length ≤ n) :
    (fromBigEndian (8 * n) bs).toNat = beValue bs := by
  induction bs using List.reverseRecOn with
  | nil => simp [fromBigEndian, beValue]
  | append_singleton bs b ih =>
    rw [List.length_append, List.length_singleton] at h
    have hprev := ih (by omega)
    have hvalue := beValue_append_singleton bs b
    have hlt : 256 * beValue bs + b.toNat < 2 ^ (8 * n) := by
      have hall := beValue_lt (bs ++ [b])
      rw [hvalue, List.length_append, List.length_singleton] at hall
      calc 256 * beValue bs + b.toNat < 256 ^ (bs.length + 1) := hall
        _ ≤ 256 ^ n := Nat.pow_le_pow_right (by omega) h
        _ = 2 ^ (8 * n) := by rw [show 256 = 2 ^ 8 from rfl, ← pow_mul]
    unfold fromBigEndian at hprev ⊢
    rw [List.foldl_append, List.foldl_cons, List.foldl_nil, toNat_shiftLeft_or _ _ (by rw [hprev]; exact hlt), hprev,
      hvalue]

theorem toNat_add_one (b : Byte) : (b + 1).toNat = (b.toNat + 1) % 256 := by
  rw [BitVec.toNat_add]
  rfl

/-- **The carry** goes through the bytes before `i` and no further. -/
theorem incrementLoop_eq (i : ℕ) (data : List Byte) (h : i ≤ data.length) :
    ∃ bs, incrementLoop i data = bs ++ data.drop i ∧ bs.length = i ∧
      beValue bs = (beValue (data.take i) + 1) % 256 ^ i := by
  induction i generalizing data with
  | zero => exact ⟨[], rfl, rfl, (Nat.mod_one _).symm⟩
  | succ i ih =>
    obtain ⟨b, hb⟩ : ∃ b, data.getD i 0 = b := ⟨_, rfl⟩
    have hget : data[i] = b := by
      rw [← hb, List.getD_eq_getElem?_getD, List.getElem?_eq_getElem h]
      rfl
    have htake : beValue (data.take (i + 1)) = 256 * beValue (data.take i) + b.toNat := by
      rw [List.take_succ_eq_append_getElem h, beValue_append_singleton, hget]
    have hset : data.set i (b + 1) = data.take i ++ (b + 1) :: data.drop (i + 1) := by
      rw [List.set_eq_take_append_cons_drop, if_pos (Nat.lt_of_succ_le h)]
    have hlength : (data.take i).length = i := by
      rw [List.length_take]
      omega
    have hlt := beValue_lt (data.take i)
    rw [hlength] at hlt
    have hnext := toNat_add_one b
    have hbyte := b.isLt
    rw [htake, pow_succ', incrementLoop, hb]
    by_cases hcarry : b + 1 = 0
    · -- the byte was 255, and the carry goes on
      have hfull : b.toNat = 255 := by
        rw [hcarry] at hnext
        simp at hnext
        omega
      obtain ⟨bs, hloop, hlen, hvalue⟩ := ih (data.set i (b + 1)) (by rw [List.length_set]; omega)
      refine ⟨bs ++ [b + 1], ?_, by rw [List.length_append, hlen]; rfl, ?_⟩
      · rw [if_pos hcarry, hloop, hset, List.drop_left' hlength, List.append_assoc]
        rfl
      · have hsum : 256 * beValue (data.take i) + 255 + 1 = 256 * (beValue (data.take i) + 1) := by omega
        rw [beValue_append_singleton, hvalue, hset, List.take_left' hlength, hfull, hcarry, hsum, Nat.mul_mod_mul_left]
        rfl
    · have hless : (b + 1).toNat = b.toNat + 1 := by
        rw [hnext]
        refine Nat.mod_eq_of_lt ?_
        by_contra hge
        have hmod : (b.toNat + 1) % 256 = 0 := by omega
        exact hcarry (BitVec.eq_of_toNat_eq (hnext.trans hmod))
      refine ⟨data.take i ++ [b + 1], ?_, by rw [List.length_append, hlength]; rfl, ?_⟩
      · rw [if_neg hcarry, hset, List.append_assoc]
        rfl
      · have hsmall := (b + 1).isLt
        rw [beValue_append_singleton, hless, ← add_assoc, Nat.mod_eq_of_lt]
        omega

end Loops

namespace FixedHash

variable {n : ℕ}

theorem ofFn_ofList {bs : List Byte} (h : bs.length = n) : List.ofFn (ofList bs : FixedHash n) = bs := by
  subst h
  apply List.ext_getElem
  · simp
  · intro i hi hi'
    simp [ofList, List.getD_eq_getElem?_getD, hi']

/-- The number that `operator Arith` gives is the big-endian one. -/
theorem toNat_toArith (h : FixedHash n) : (toArith h).toNat = arith h := toNat_fromBigEndian (by simp)

theorem ofFn_ofArith (val : Arith n) : List.ofFn (ofArith val) = (leBytes n val.toNat).reverse := by
  rw [ofArith, ofFn_ofList (by rw [toBigEndian_eq]; simp), toBigEndian_eq, List.length_replicate]

theorem toArith_ofArith (val : Arith n) : toArith (ofArith val) = val := by
  apply BitVec.eq_of_toNat_eq
  have hlt := val.isLt
  rw [pow_mul] at hlt
  rw [toNat_toArith, arith, ofFn_ofArith, beValue_eq, List.reverse_reverse, leValue_leBytes]
  exact Nat.mod_eq_of_lt hlt

theorem toArith_inj {h c : FixedHash n} : toArith h = toArith c ↔ h = c := by
  refine ⟨fun heq => List.ofFn_injective ?_, fun heq => heq ▸ rfl⟩
  have hvalue := congrArg BitVec.toNat heq
  rw [toNat_toArith, toNat_toArith] at hvalue
  exact beValue_injective (by simp) hvalue

theorem ofArith_toArith (h : FixedHash n) : ofArith (toArith h) = h := toArith_inj.1 (toArith_ofArith (toArith h))

theorem equal_iff (h c : FixedHash n) : equal h c = true ↔ toArith h = toArith c := by
  rw [equal, decide_eq_true_iff, toArith_inj]

theorem lt_iff (h c : FixedHash n) : lt h c = true ↔ toArith h < toArith c := by
  rw [BitVec.lt_def, toNat_toArith, toNat_toArith]
  exact bytesLt_iff (by simp)

theorem ge_iff (h c : FixedHash n) : ge h c = true ↔ toArith c ≤ toArith h := by
  rw [ge, Bool.not_eq_true', ← Bool.not_eq_true, lt_iff, BitVec.not_lt]

theorem le_iff (h c : FixedHash n) : le h c = true ↔ toArith h ≤ toArith c := by
  rw [le, Bool.or_eq_true, equal_iff, lt_iff, BitVec.le_def, BitVec.lt_def, ← BitVec.toNat_inj]
  omega

theorem gt_iff_toArith (h c : FixedHash n) : gt h c = true ↔ toArith c < toArith h := by
  rw [gt_iff, BitVec.lt_def, toNat_toArith, toNat_toArith]

/-- **`operator++` adds one**, with a carry through all the bytes. -/
theorem toNat_toArith_increment (h : FixedHash n) :
    (toArith (increment h)).toNat = ((toArith h).toNat + 1) % 256 ^ n := by
  obtain ⟨bs, hloop, hlen, hvalue⟩ := incrementLoop_eq n (List.ofFn h) (by simp)
  rw [List.drop_of_length_le (by simp), List.append_nil] at hloop
  rw [List.take_of_length_le (by simp)] at hvalue
  rw [toNat_toArith, toNat_toArith, increment, hloop, arith, ofFn_ofList hlen, hvalue]
  rfl

end FixedHash

/-- Equal words are equal bytes. -/
theorem equal256_iff (h c : H256) : equal256 h c = true ↔ FixedHash.toArith h = FixedHash.toArith c := by
  have hlanes : lanes (m := 4) (hash256FromBytes h) = lanes (m := 4) (hash256FromBytes c) ↔ h = c := by
    refine ⟨fun heq => List.ofFn_injective ?_, fun heq => heq ▸ rfl⟩
    have hbytes := congrArg wordBytes heq
    rwa [← bytes_eq_wordBytes (m := 4), ← bytes_eq_wordBytes (m := 4), bytes_hash256FromBytes,
      bytes_hash256FromBytes] at hbytes
  rw [FixedHash.toArith_inj, ← hlanes]
  simp [equal256, lanes, List.ofFn_succ, and_assoc]

/-- **Byte arrays are big-endian integers**: the conversions are inverse to each other, the
comparisons and the increment are those of the numbers, and for 32 bytes the comparisons by words
agree with them. -/
theorem FixedHash.arithmetic_faithful (n : ℕ) (a b : FixedHash n) (val : Arith n) :
    (toArith a).toNat = beValue (List.ofFn a) ∧ ofArith (toArith a) = a ∧ toArith (ofArith val) = val ∧
    (equal a b = true ↔ toArith a = toArith b) ∧ (lt a b = true ↔ toArith a < toArith b) ∧
    (le a b = true ↔ toArith a ≤ toArith b) ∧ (gt a b = true ↔ toArith b < toArith a) ∧
    (ge a b = true ↔ toArith b ≤ toArith a) ∧
    (toArith (increment a)).toNat = ((toArith a).toNat + 1) % 256 ^ n ∧
    ∀ x y : H256, (equal256 x y = true ↔ toArith x = toArith y) ∧
      (isLessOrEqual (hash256FromBytes x) (hash256FromBytes y) = true ↔ toArith x ≤ toArith y) := by
  refine ⟨toNat_toArith a, ofArith_toArith a, toArith_ofArith val, equal_iff a b, lt_iff a b, le_iff a b,
    gt_iff_toArith a b, ge_iff a b, toNat_toArith_increment a, fun x y => ⟨equal256_iff x y, ?_⟩⟩
  rw [isLessOrEqual_iff, bytes_hash256FromBytes, bytes_hash256FromBytes, BitVec.le_def, toNat_toArith, toNat_toArith]
  rfl

end Common
end EtcMiner
