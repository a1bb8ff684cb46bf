/-
# Numbers and bytes as text

`fromHex`, `padLeft`, `getTargetFromDiff` and `getHashesToTarget` in
`libdev/CommonData.cpp`, `toHex` in `libdev/CommonData.h` and the conversions of
`FixedHash` from and to text in `libdev/FixedHash.h`.  A thrown `std::exception` is
`none`.

The text a `double` prints as, and the rounding of a number to a `double`, belong to
the library: they are parameters.
-/

import EtcMiner.Common.FixedHash
import EtcMiner.Lib.Hex
import Mathlib.Algebra.Order.Field.Rat
import Mathlib.Data.Rat.Floor

namespace EtcMiner
namespace Common

open Lib

/-- The bytes of pairs of hex digits. -/
def fromHexPairs : List Char → Option (List Byte)
  | [] => some []
  | [_] => none
  | c :: d :: cs => do
    let h ← hexVal c
    let l ← hexVal d
    let bs ← fromHexPairs cs
    return BitVec.ofNat 8 (h * 16 + l) :: bs

/-- `fromHex` with `WhenError::Throw`.  A string of odd length starts with a lone
digit. -/
def fromHex (s : List Char) : Option (List Byte) :=
  let digits := if s.take 2 = ['0', 'x'] then s.drop 2 else s
  if s.length % 2 = 1 then
    match digits with
    | [] => none
    | c :: cs => do
      let h ← hexVal c
      let bs ← fromHexPairs cs
      return BitVec.ofNat 8 h :: bs
  else fromHexPairs digits

/-- `FixedHash(bytes, FailIfDifferent)`: bytes of another length give the zero hash. -/
def FixedHash.ofBytes (n : ℕ) (bs : List Byte) : FixedHash n :=
  if bs.length = n then fun i => bs.getD i 0 else fun _ => 0

/-- `h256(string)`. -/
def h256OfString (s : List Char) : Option H256 := (fromHex s).map (FixedHash.ofBytes 32)

/-- `FixedHash::hex(HexPrefix::Add)`. -/
def FixedHash.hex {n : ℕ} (h : FixedHash n) : List Char :=
  '0' :: 'x' :: (List.ofFn h).flatMap fun b => toHexDigits 2 b.toNat

/-- `padLeft`. -/
def padLeft (value : List Char) (length : ℕ) (fillChar : Char) : List Char :=
  List.replicate (length - value.length) fillChar ++ value

/-- `getHashesToTarget` of a text with prefix `0x`, before it is rounded to a `double`.
The division by zero throws. -/
def getHashesToTarget (target : List Char) : Option ℕ :=
  let divisor := hexValue (target.drop 2)
  if divisor = 0 then none else some (0xffff * 2 ^ 240 / divisor)

/-- The decimal number a text of digits denotes. -/
def parseDecimal (s : List Char) : Option ℕ :=
  if s.all Char.isDigit then some (s.foldl (fun n c => 10 * n + (c.toNat - 48)) 0) else none

/-- `base` in `getTargetFromDiff`. -/
def targetBase : ℕ := 0xffff * 2 ^ 208

/-- The share of the decimal places of `sdiff` in `getTargetFromDiff`. -/
def decimalProduct (sdiff : List Char) : Option ℕ :=
  match sdiff.dropWhile (· ≠ '.') with
  | [] => some 0
  | _ :: decimals => do
    let multiplier ← parseDecimal (decimals.dropWhile (· = '0'))
    return targetBase * multiplier / 10 ^ decimals.length

/-- `getTargetFromDiff`.  `inverse` is `1 / diff` and `sdiff` the text it prints as. -/
def getTargetFromDiff (diff inverse : ℚ) (sdiff : List Char) : Option (List Char) := do
  let product ←
    if diff = 0 then some (2 ^ 256 - 1)
    else (decimalProduct sdiff).map (targetBase * ⌊inverse⌋.toNat + ·)
  return '0' :: 'x' :: padLeft (Nat.toDigits 16 product) 64 '0'

theorem toHexDigits_two (n : ℕ) : toHexDigits 2 n = [hexChar (n / 16 % 16), hexChar (n % 16)] := rfl

/-- The digits of bytes are read back as the bytes. -/
theorem fromHexPairs_toHexDigits (bs : List Byte) :
    fromHexPairs (bs.flatMap fun b => toHexDigits 2 b.toNat) = some bs := by
  induction bs with
  | nil => rfl
  | cons b bs ih =>
    have hb := b.isLt
    have hbyte : BitVec.ofNat 8 (b.toNat / 16 % 16 * 16 + b.toNat % 16) = b := by
      apply BitVec.eq_of_toNat_eq
      rw [BitVec.toNat_ofNat]
      omega
    rw [List.flatMap_cons, toHexDigits_two]
    simp only [List.cons_append, List.nil_append, fromHexPairs, hexVal_hexChar (Nat.mod_lt _ (show 0 < 16 by omega)),
      ih, Option.bind_eq_bind, Option.bind_some, Option.pure_def, hbyte]

/-- The number of the digits of bytes is their big-endian number. -/
theorem hexValue_toHexDigits_two (bs : List Byte) :
    hexValue (bs.flatMap fun b => toHexDigits 2 b.toNat) = beValue bs := by
  induction bs using List.reverseRecOn with
  | nil => rfl
  | append_singleton bs b ih =>
    have hb := b.isLt
    rw [List.flatMap_append, List.flatMap_singleton, toHexDigits_two, ← List.singleton_append, ← List.append_assoc,
      hexValue_append_singleton, hexValue_append_singleton, ih, beValue_append,
      hexVal_hexChar (Nat.mod_lt _ (by omega)), hexVal_hexChar (Nat.mod_lt _ (by omega))]
    simp [beValue]
    omega

theorem FixedHash.drop_hex {n : ℕ} (h : FixedHash n) :
    (FixedHash.hex h).drop 2 = (List.ofFn h).flatMap fun b => toHexDigits 2 b.toNat := rfl

/-- **The text of a hash** is read as the hash. -/
theorem h256OfString_hex (h : H256) : h256OfString (FixedHash.hex h) = some h := by
  have hlength : (FixedHash.hex h).length % 2 = 0 := by simp [FixedHash.hex]
  have htake : (FixedHash.hex h).take 2 = ['0', 'x'] := rfl
  rw [h256OfString, fromHex, if_pos htake, if_neg (by omega), FixedHash.drop_hex, fromHexPairs_toHexDigits,
    Option.map_some, FixedHash.ofBytes, if_pos (by simp)]
  congr 1
  funext i
  rw [List.getD_eq_getElem?_getD, List.getElem?_ofFn, dif_pos i.isLt]
  rfl

theorem FixedHash.arith_eq_zero_iff (h : H256) : FixedHash.arith h = 0 ↔ h = fun _ => 0 := by
  have hzero : FixedHash.arith (fun _ => 0 : H256) = 0 := by decide
  refine ⟨fun heq => List.ofFn_injective ?_, fun heq => heq ▸ hzero⟩
  exact beValue_injective (by simp) (heq.trans hzero.symm)

/-- `getHashesToTarget` divides by the number of the hash. -/
theorem getHashesToTarget_hex (h : H256) :
    getHashesToTarget (FixedHash.hex h) =
      if FixedHash.arith h = 0 then none else some (0xffff * 2 ^ 240 / FixedHash.arith h) := by
  rw [getHashesToTarget, FixedHash.drop_hex, hexValue_toHexDigits_two, ← FixedHash.arith]

/-- **The division of `getHashesToTarget` throws** exactly for the zero hash. -/
theorem getHashesToTarget_hex_eq_none_iff (h : H256) :
    getHashesToTarget (FixedHash.hex h) = none ↔ h = fun _ => 0 := by
  rw [getHashesToTarget_hex, ← FixedHash.arith_eq_zero_iff]
  split_ifs with hdivisor
  · exact iff_of_true rfl hdivisor
  · exact iff_of_false (by simp) hdivisor

end Common
end EtcMiner
