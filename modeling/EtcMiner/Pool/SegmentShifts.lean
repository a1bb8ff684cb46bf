/-
# The shifts of the nonce segments

`Farm::setWork` in `libeth/Farm.cpp` shifts by `64 - 4 * nonce.size()` and, once for every miner, by
`segmentBits`, a `uint16_t` from which the bits of the miners and of the fixed digits are subtracted.
A shift of a 64-bit word by 64 or more is undefined in C++.

The digits come from outside: `on_nonce` and `miner_setnonce` check that a user nonce is hexadecimal but
not its length, and `processExtranonce` takes an extranonce of any length whose first sixteen
characters `stoull` reads.  With `k` fixed digits and `c` bits for the miners, no shift is by 64 or more
and nothing wraps exactly if `0 < c + 4 * k ≤ 64` (`shiftsDefined_iff`), and then the packages do not depend
on undefined shifts (`setWork_of_shiftsDefined`).  The settings admitted do not ensure it
(`shifts_undefined`).
-/

import EtcMiner.Eth.SetWork
import EtcMiner.Stratum.Extranonce

namespace EtcMiner
namespace Pool

open Eth Lib Stratum

/-- The counts of the shifts that `setWork` makes: the one of the user nonce, and one after every miner. -/
def shiftCounts (minerCount : ℕ) (nonce : UserNonce) (wp : WorkPackage) : List ℕ :=
  (if nonce.digits ≠ [] then [(BitVec.ofNat 64 64 - BitVec.ofNat 64 (4 * nonce.digits.length)).toNat] else []) ++
    List.replicate minerCount (segmentBits minerCount nonce wp).toNat

/-- The number of digits that are fixed. -/
def fixedCount (nonce : UserNonce) (wp : WorkPackage) : ℕ :=
  if nonce.digits ≠ [] then nonce.digits.length else wp.exSizeBytes.toNat

/-- All shifts are by less than 64, and `segmentBits` is the difference it is meant to be. -/
structure ShiftsDefined (minerCount : ℕ) (nonce : UserNonce) (wp : WorkPackage) : Prop where
  counts : ∀ count ∈ shiftCounts minerCount nonce wp, count < 64
  noWrap : ((segmentBits minerCount nonce wp).toNat : ℤ) = 64 - Nat.clog 2 minerCount - 4 * fixedCount nonce wp

variable {minerCount : ℕ} {nonce : UserNonce} {wp : WorkPackage}

/-- What is subtracted, whatever fixes the digits. -/
theorem toNat_segmentBits (minerCount : ℕ) (nonce : UserNonce) (wp : WorkPackage) :
    ((segmentBits minerCount nonce wp).toNat : ℤ) =
      (64 - Nat.clog 2 minerCount - 4 * fixedCount nonce wp : ℤ) % 2 ^ 16 := by
  unfold segmentBits fixedCount
  by_cases hnonce : nonce.digits ≠ []
  · simp only [if_pos hnonce, BitVec.toNat_sub, BitVec.toNat_ofNat]
    omega
  · simp only [if_neg hnonce]
    by_cases hsize : wp.exSizeBytes ≠ 0
    · have hfour : (4 : BitVec 16).toNat = 4 := rfl
      simp only [if_pos hsize, BitVec.toNat_sub, BitVec.toNat_ofNat, BitVec.toNat_mul, hfour]
      omega
    · have hzero : wp.exSizeBytes.toNat = 0 := by
        rw [not_not.1 hsize]
        rfl
      simp only [if_neg hsize, BitVec.toNat_sub, BitVec.toNat_ofNat, hzero]
      omega

theorem noWrap_iff : ((segmentBits minerCount nonce wp).toNat : ℤ) =
      64 - Nat.clog 2 minerCount - 4 * fixedCount nonce wp ↔
    Nat.clog 2 minerCount + 4 * fixedCount nonce wp ≤ 64 := by
  rw [toNat_segmentBits]
  omega

/-- **The shifts are defined** if the fixed digits and the miners need some of the 64 bits, and no more. -/
theorem shiftsDefined_iff (hcount : 0 < minerCount) : ShiftsDefined minerCount nonce wp ↔
    0 < Nat.clog 2 minerCount + 4 * fixedCount nonce wp ∧ Nat.clog 2 minerCount + 4 * fixedCount nonce wp ≤ 64 := by
  constructor
  · rintro ⟨hcounts, hwrap⟩
    have hsegment : (segmentBits minerCount nonce wp).toNat < 64 :=
      hcounts _ (List.mem_append_right _ (List.mem_replicate.2 ⟨by omega, rfl⟩))
    have hle := noWrap_iff.1 hwrap
    omega
  · rintro ⟨hpos, hle⟩
    have hwrap := noWrap_iff.2 hle
    refine ⟨fun count hmem => ?_, hwrap⟩
    obtain huser | hsegment := List.mem_append.1 hmem
    · obtain ⟨hnonce, huser⟩ := List.mem_ite_nil_right.1 huser
      obtain rfl := List.mem_singleton.1 huser
      have hne : 0 < nonce.digits.length := List.length_pos_of_ne_nil hnonce
      rw [fixedCount, if_pos hnonce] at hle
      rw [BitVec.toNat_sub, BitVec.toNat_ofNat, BitVec.toNat_ofNat]
      omega
    · obtain ⟨-, rfl⟩ := List.mem_replicate.1 hsegment
      omega

/-- Then what C++ leaves undefined does not matter. -/
theorem setWork_of_shiftsDefined (hcount : 0 < minerCount) (h : ShiftsDefined minerCount nonce wp)
    (undef undef' : BitVec 64 → ℕ → BitVec 64) (random : BitVec 64) :
    setWork undef nonce random minerCount wp = setWork undef' nonce random minerCount wp := by
  have hsegment : (segmentBits minerCount nonce wp).toNat < 64 :=
    h.counts _ (List.mem_append_right _ (List.mem_replicate.2 ⟨by omega, rfl⟩))
  have hstart : startNonce undef nonce random wp = startNonce undef' nonce random wp := by
    unfold startNonce
    by_cases hnonce : nonce.digits ≠ []
    · have huser := h.counts _ (List.mem_append_left _ (by rw [if_pos hnonce]; exact List.mem_cons_self))
      rw [if_pos hnonce, if_pos hnonce, shl, shl, if_pos huser, if_pos huser]
    · rw [if_neg hnonce, if_neg hnonce]
  unfold setWork
  rw [hstart, shl, shl, if_pos hsegment, if_pos hsegment]

/-- The nonce that `on_nonce` lets through is the text itself. -/
theorem onNonce_digits {n : List Char} (h : onNonce n = some nonce) : nonce.digits = n := by
  unfold onNonce at h
  by_cases hhex : n.all isHexDigit
  · rw [dif_pos hhex] at h
    obtain rfl := Option.some.inj h
    rfl
  · rw [dif_neg hhex] at h
    exact absurd h (by simp)

/-- **When the segmentation of the nonces is defined.**  For a user nonce that `on_nonce` or
`miner_setnonce` lets through, and a package whose `exSizeBytes` comes from an extranonce that
`processExtranonce` took, the shifts of `setWork` are by less than 64 and `segmentBits` does not wrap
exactly if the digits fixed, of the user nonce or else of the extranonce, leave bits enough for the
miners, and are not none for a single miner. -/
theorem segmentation_defined_iff (hcount : 0 < minerCount) {n : List Char} (hnonce : onNonce n = some nonce)
    {enonce : List Char} {c c' : Client} (haccepted : processExtranonce enonce c = .ok () c') {s : Session}
    (hs : c'.session = some s) (hwp : wp.exSizeBytes = s.extraNonceSizeBytes.setWidth 16) :
    let k := if n ≠ [] then n.length else enonce.length % 2 ^ 16
    ShiftsDefined minerCount nonce wp ↔ 0 < Nat.clog 2 minerCount + 4 * k ∧ Nat.clog 2 minerCount + 4 * k ≤ 64 := by
  have hdigits := onNonce_digits hnonce
  obtain ⟨s₀, v, -, -, rfl⟩ := processExtranonce_ok haccepted
  obtain rfl := Option.some.inj hs
  have hsize : wp.exSizeBytes.toNat = enonce.length % 2 ^ 16 := by
    rw [hwp]
    simp only [BitVec.toNat_setWidth, BitVec.toNat_ofNat]
    omega
  have hfixed : fixedCount nonce wp = if n ≠ [] then n.length else enonce.length % 2 ^ 16 := by
    rw [fixedCount, hdigits, hsize]
  intro k
  rw [shiftsDefined_iff hcount, hfixed]

/-- A client with a fresh session. -/
def freshClient : Client where
  conn := { stratumMode := ETHEREUMSTRATUM }
  session := some {}
  pleas := { older := 0 }

/-- Three miners behind the extranonce `ab`. -/
theorem segmentation_defined_three :
    ShiftsDefined 3 UserNonce.empty { startNonce := 0xab00000000000000, exSizeBytes := 2 } :=
  (segmentation_defined_iff (by decide) (show onNonce [] = some UserNonce.empty from rfl)
    (show processExtranonce "ab".toList freshClient = .ok () _ from processExtranonce_run rfl rfl) rfl rfl).2 (by decide)

/-- What the settings admit: a single miner without fixed digits shifts by 64; a user nonce of 17 digits
makes `64 - 68`; and an extranonce of 16 digits leaves no bit for a second miner, so `segmentBits` wraps. -/
theorem shifts_undefined :
    (onNonce [] = some UserNonce.empty ∧ (∃ c', processExtranonce [] freshClient = .ok () c') ∧
      64 ∈ shiftCounts 1 UserNonce.empty {} ∧ ¬ ShiftsDefined 1 UserNonce.empty {}) ∧
    (∃ nonce, onNonce (List.replicate 17 '1') = some nonce ∧ 2 ^ 64 - 4 ∈ shiftCounts 1 nonce {} ∧
      ¬ ShiftsDefined 1 nonce {}) ∧
    (∃ c', processExtranonce (List.replicate 16 'f') freshClient = .ok () c') ∧
      (segmentBits 2 UserNonce.empty { exSizeBytes := 16 }).toNat = 2 ^ 16 - 1 ∧
      ¬ ShiftsDefined 2 UserNonce.empty { exSizeBytes := 16 } := by
  refine ⟨⟨rfl, ⟨_, processExtranonce_run rfl rfl⟩, by decide, ?_⟩, ⟨_, rfl, by decide, ?_⟩,
    ⟨_, processExtranonce_run rfl rfl⟩, by decide, ?_⟩
  · rw [shiftsDefined_iff (by decide)]
    decide
  · rw [shiftsDefined_iff (by decide)]
    decide
  · rw [shiftsDefined_iff (by decide)]
    decide

end Pool
end EtcMiner
