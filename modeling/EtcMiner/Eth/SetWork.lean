/-
# The farm deals the nonces out

`Farm::setWork` in `libeth/Farm.cpp`.  The start nonce of a job is fixed by the user
(`--nonce`, `miner_setnonce`), or by the extranonce of the pool, or drawn at random;
the miners get consecutive segments of `2 ^ segmentBits` nonces from there.

`segmentBits` is a `uint16_t` and the shifts are those of C++: a shift by 64 or more
is undefined, and `undef` stands for whatever it yields.

A prefix of `k` hex digits leaves `64 - 4 * k` bits.  As long as they are enough for
the miners the segments are disjoint and keep the prefix
(`setWork_segments_disjoint`); a single miner without prefix gets the whole cycle,
and the one undefined shift comes after the last miner.
-/

import EtcMiner.Eth.WorkPackage
import EtcMiner.Lib.Cyclic
import EtcMiner.Lib.Strto
import Mathlib.Data.Nat.Log

namespace EtcMiner
namespace Eth

open Lib

/-- `m_Settings.nonce`.  `on_nonce` and `miner_setnonce` let only hex digits
through. -/
structure UserNonce where
  digits : List Char
  isHex : ∀ c ∈ digits, isHexDigit c

/-- `on_nonce`, and the check of `miner_setnonce`. -/
def onNonce (n : List Char) : Option UserNonce :=
  if h : n.all isHexDigit then some ⟨n, List.all_eq_true.1 h⟩ else none

/-- No user nonce. -/
def UserNonce.empty : UserNonce := ⟨[], by simp⟩

/-- `x << n` on 64-bit words, `undef` giving the shifts C++ leaves undefined. -/
def shl (undef : BitVec 64 → ℕ → BitVec 64) (x : BitVec 64) (n : ℕ) : BitVec 64 :=
  if n < 64 then x <<< n else undef x n

/-- `segmentBits`, with `ceil` and `log2` taken as exact. -/
def segmentBits (minerCount : ℕ) (nonce : UserNonce) (wp : WorkPackage) : BitVec 16 :=
  let bits := BitVec.ofNat 16 64 - BitVec.ofNat 16 (Nat.clog 2 minerCount)
  if nonce.digits ≠ [] then bits - BitVec.ofNat 16 (4 * nonce.digits.length)
  else if wp.exSizeBytes ≠ 0 then bits - wp.exSizeBytes * 4
  else bits

/-- The start nonce of the first miner; `random` is the draw of `m_engine`. -/
def startNonce (undef : BitVec 64 → ℕ → BitVec 64) (nonce : UserNonce) (random : BitVec 64)
    (wp : WorkPackage) : BitVec 64 :=
  if nonce.digits ≠ [] then
    shl undef (strtoull16 nonce.digits) (BitVec.ofNat 64 64 - BitVec.ofNat 64 (4 * nonce.digits.length)).toNat
  else if wp.exSizeBytes ≠ 0 then wp.startNonce
  else random

/-- `Farm::setWork`: the packages given to the miners, in their order. -/
def setWork (undef : BitVec 64 → ℕ → BitVec 64) (nonce : UserNonce) (random : BitVec 64)
    (minerCount : ℕ) (newWp : WorkPackage) : List WorkPackage :=
  let step := shl undef 1 (segmentBits minerCount nonce newWp).toNat
  let currentWp := { newWp with startNonce := startNonce undef nonce random newWp }
  (forLoop (fun _ s => ({ s.1 with startNonce := s.1.startNonce + step }, s.2 ++ [s.1]))
    minerCount (currentWp, ([] : List WorkPackage))).2

/-- The package of miner `i`. -/
def minerWork (undef : BitVec 64 → ℕ → BitVec 64) (nonce : UserNonce) (random : BitVec 64)
    (minerCount : ℕ) (newWp : WorkPackage) (i : ℕ) : WorkPackage :=
  { newWp with
    startNonce := startNonce undef nonce random newWp +
      BitVec.ofNat 64 i * shl undef 1 (segmentBits minerCount nonce newWp).toNat }

/-- Miner `i` starts `i` steps after the first one. -/
theorem setWork_eq (undef : BitVec 64 → ℕ → BitVec 64) (nonce : UserNonce) (random : BitVec 64)
    (minerCount : ℕ) (newWp : WorkPackage) :
    setWork undef nonce random minerCount newWp =
      (List.range minerCount).map (minerWork undef nonce random minerCount newWp) := by
  set step := shl undef 1 (segmentBits minerCount nonce newWp).toNat with hstep
  have hinv := @forLoop_inv (WorkPackage × List WorkPackage)
    (fun _ s => ({ s.1 with startNonce := s.1.startNonce + step }, s.2 ++ [s.1])) minerCount
    ({ newWp with startNonce := startNonce undef nonce random newWp }, [])
    (fun i s => s.1 = minerWork undef nonce random minerCount newWp i ∧
      s.2 = (List.range i).map (minerWork undef nonce random minerCount newWp))
    ⟨by simp [minerWork], rfl⟩ fun i _ s hs => by
      obtain ⟨hwp, hout⟩ := hs
      refine ⟨?_, by rw [List.range_succ, List.map_append, hout, hwp]; rfl⟩
      rw [hwp]
      simp only [minerWork, ← hstep, BitVec.ofNat_add]
      rw [show BitVec.ofNat 64 1 = (1 : BitVec 64) from rfl, add_mul, one_mul, add_assoc]
  exact hinv.2

/-- Where the start nonce of a job comes from: `FixedDigits nonce wp k v` says that
its first `k` hex digits are fixed and denote `v`, by a user nonce of `k` digits, by
an extranonce of `k` digits that is aligned left, or, for `k = 0`, by nothing. -/
inductive FixedDigits (nonce : UserNonce) (wp : WorkPackage) : ℕ → ℕ → Prop
  | user : nonce.digits ≠ [] → FixedDigits nonce wp nonce.digits.length (hexValue nonce.digits)
  | extranonce (v : ℕ) : nonce.digits = [] → wp.exSizeBytes ≠ 0 → v < 16 ^ wp.exSizeBytes.toNat →
      wp.startNonce = BitVec.ofNat 64 (v * 2 ^ (64 - 4 * wp.exSizeBytes.toNat)) →
      FixedDigits nonce wp wp.exSizeBytes.toNat v
  | random : nonce.digits = [] → wp.exSizeBytes = 0 → FixedDigits nonce wp 0 0

variable {nonce : UserNonce} {wp : WorkPackage} {k v minerCount : ℕ}

/-- `segmentBits` is what the prefix and the miners leave of 64 bits. -/
theorem FixedDigits.toNat_segmentBits (h : FixedDigits nonce wp k v)
    (hbits : 4 * k + Nat.clog 2 minerCount ≤ 64) :
    (segmentBits minerCount nonce wp).toNat = 64 - 4 * k - Nat.clog 2 minerCount := by
  unfold segmentBits
  cases h with
  | user hne =>
    simp only [if_pos hne, BitVec.toNat_sub, BitVec.toNat_ofNat]
    omega
  | extranonce v hempty hsize =>
    simp only [hempty, ne_eq, not_true_eq_false, if_false, hsize, not_false_eq_true, if_true,
      BitVec.toNat_sub, BitVec.toNat_ofNat, BitVec.toNat_mul]
    rw [show (4 : BitVec 16).toNat = 4 from rfl]
    omega
  | random hempty hsize =>
    simp only [hempty, hsize, ne_eq, not_true_eq_false, if_false, BitVec.toNat_sub, BitVec.toNat_ofNat]
    omega

/-- A fixed prefix is the high part of the start nonce, whose other bits are zero. -/
theorem FixedDigits.toNat_startNonce (h : FixedDigits nonce wp k v) (hk : 0 < k) (hbits : 4 * k ≤ 64)
    (undef : BitVec 64 → ℕ → BitVec 64) (random : BitVec 64) :
    (startNonce undef nonce random wp).toNat = v * 2 ^ (64 - 4 * k) := by
  have hlt : ∀ {v : ℕ}, v < 16 ^ k → v * 2 ^ (64 - 4 * k) < 2 ^ 64 := fun {v} hv => by
    have hpow : 16 ^ k * 2 ^ (64 - 4 * k) = 2 ^ 64 := by
      rw [show (16 : ℕ) = 2 ^ 4 by norm_num, ← pow_mul, ← pow_add, Nat.add_sub_cancel' hbits]
    exact hpow ▸ Nat.mul_lt_mul_of_pos_right hv (Nat.two_pow_pos _)
  unfold startNonce
  cases h with
  | user hne =>
    have hvalue := hexValue_lt nonce.digits
    have hshift : (BitVec.ofNat 64 64 - BitVec.ofNat 64 (4 * nonce.digits.length)).toNat =
        64 - 4 * nonce.digits.length := by
      simp only [BitVec.toNat_sub, BitVec.toNat_ofNat]
      omega
    rw [if_pos hne, hshift, shl, if_pos (by omega), strtoull16_digits nonce.isHex hne (by omega),
      BitVec.toNat_shiftLeft, BitVec.toNat_ofNat, Nat.shiftLeft_eq,
      Nat.mod_eq_of_lt (hexValue_lt_two_pow (by omega)), Nat.mod_eq_of_lt (hlt hvalue)]
  | extranonce v hempty hsize hv hstart =>
    rw [if_neg (by simp [hempty]), if_pos hsize, hstart, BitVec.toNat_ofNat, Nat.mod_eq_of_lt (hlt hv)]
  | random => omega

/-- The segments of the miners fit behind the prefix. -/
theorem FixedDigits.minerCount_mul_le (h : FixedDigits nonce wp k v)
    (hbits : 4 * k + Nat.clog 2 minerCount ≤ 64) :
    minerCount * 2 ^ (segmentBits minerCount nonce wp).toNat ≤ 2 ^ (64 - 4 * k) := by
  rw [h.toNat_segmentBits hbits]
  calc minerCount * 2 ^ (64 - 4 * k - Nat.clog 2 minerCount)
      ≤ 2 ^ Nat.clog 2 minerCount * 2 ^ (64 - 4 * k - Nat.clog 2 minerCount) :=
        Nat.mul_le_mul_right _ (Nat.le_pow_clog (by omega) _)
    _ = 2 ^ (64 - 4 * k) := by rw [← pow_add]; congr 1; omega

/-- Miner `i` starts at the segment `i`, whatever the undefined shift yields. -/
theorem FixedDigits.minerWork_startNonce (h : FixedDigits nonce wp k v)
    (hbits : 4 * k + Nat.clog 2 minerCount ≤ 64) (undef : BitVec 64 → ℕ → BitVec 64)
    (random : BitVec 64) {i : ℕ} (hi : i < minerCount) :
    (minerWork undef nonce random minerCount wp i).startNonce =
      startNonce undef nonce random wp +
        BitVec.ofNat 64 (i * 2 ^ (segmentBits minerCount nonce wp).toNat) := by
  simp only [minerWork]
  congr 1
  set seg := (segmentBits minerCount nonce wp).toNat with hseg
  rcases Nat.eq_zero_or_pos i with rfl | hpos
  · simp
  · -- a second miner makes the segment shorter than the cycle, so the shift is defined
    have hclog : 0 < Nat.clog 2 minerCount := Nat.clog_pos (by omega) (by omega)
    have hlt : seg < 64 := by
      rw [hseg, h.toNat_segmentBits hbits]
      omega
    have hone : (1 : BitVec 64) <<< seg = BitVec.ofNat 64 (2 ^ seg) :=
      BitVec.eq_of_toNat_eq (by simp [Nat.shiftLeft_eq])
    rw [shl, if_pos hlt, hone, BitVec.ofNat_mul]

/-- **The miners get disjoint segments behind the prefix.**  For every source of the
start nonce that leaves bits enough, the ranges of `2 ^ segmentBits` nonces of any
two miners are disjoint, and the nonces of every range start with the fixed
digits. -/
theorem setWork_segments_disjoint (undef : BitVec 64 → ℕ → BitVec 64) (random : BitVec 64)
    (h : FixedDigits nonce wp k v) (hbits : 4 * k + Nat.clog 2 minerCount ≤ 64) :
    let ranges := (setWork undef nonce random minerCount wp).map fun w =>
      arc w.startNonce (2 ^ (segmentBits minerCount nonce wp).toNat)
    ranges.length = minerCount ∧ ranges.Pairwise Disjoint ∧
      (0 < k → ∀ range ∈ ranges, ∀ x ∈ range, x.toNat / 2 ^ (64 - 4 * k) = v) := by
  have hfit := h.minerCount_mul_le hbits
  set seg := (segmentBits minerCount nonce wp).toNat with hseg
  set start := startNonce undef nonce random wp with hstart
  have hranges : (setWork undef nonce random minerCount wp).map (fun w => arc w.startNonce (2 ^ seg)) =
      (List.range minerCount).map fun i => arc (start + BitVec.ofNat 64 (i * 2 ^ seg)) (2 ^ seg) := by
    rw [setWork_eq, List.map_map]
    refine List.map_congr_left fun i hi => ?_
    rw [Function.comp_apply, h.minerWork_startNonce hbits undef random (List.mem_range.1 hi)]
  intro ranges
  rw [show ranges = _ from hranges]
  -- the end of segment `i` is within the bits behind the prefix
  have hend : ∀ {i : ℕ}, i < minerCount → i * 2 ^ seg + 2 ^ seg ≤ 2 ^ (64 - 4 * k) := fun {i} hi =>
    calc i * 2 ^ seg + 2 ^ seg = (i + 1) * 2 ^ seg := (Nat.succ_mul _ _).symm
      _ ≤ minerCount * 2 ^ seg := Nat.mul_le_mul_right _ hi
      _ ≤ 2 ^ (64 - 4 * k) := hfit
  refine ⟨by simp, ?_, ?_⟩
  · rw [List.pairwise_map]
    refine List.Pairwise.imp_of_mem ?_ (List.pairwise_lt_range (n := minerCount))
    intro i j hi hj hij
    refine disjoint_arc ?_ ?_
    · calc i * 2 ^ seg + 2 ^ seg = (i + 1) * 2 ^ seg := (Nat.succ_mul _ _).symm
        _ ≤ j * 2 ^ seg := Nat.mul_le_mul_right _ hij
    · have hpow : 2 ^ (64 - 4 * k) ≤ 2 ^ 64 := Nat.pow_le_pow_right (by omega) (by omega)
      have := hend (List.mem_range.1 hj)
      omega
  · intro hk range hrange x hx
    obtain ⟨i, hi, rfl⟩ := List.mem_map.1 hrange
    have hhigh := h.toNat_startNonce hk (by omega) undef random
    have hmem : x ∈ arc start (2 ^ (64 - 4 * k)) := arc_add_subset (hend (List.mem_range.1 hi)) hx
    rw [mem_arc_iff_div_eq (by omega) (by rw [hhigh, Nat.mul_mod_left]), hhigh,
      Nat.mul_div_cancel _ (Nat.two_pow_pos _)] at hmem
    exact hmem

/-- Three miners behind the extranonce `ab`. -/
theorem setWork_segments_disjoint_three :
    let wp : WorkPackage := { startNonce := 0xab00000000000000, exSizeBytes := 2 }
    ((setWork (fun x _ => x) UserNonce.empty 0 3 wp).map fun w =>
      arc w.startNonce (2 ^ (segmentBits 3 UserNonce.empty wp).toNat)).Pairwise Disjoint :=
  (setWork_segments_disjoint _ 0 (FixedDigits.extranonce 0xab rfl (by decide) (by decide) rfl)
    (by decide)).2.1

end Eth
end EtcMiner
