/-
# The hex codec

`toHex` in `libdev/CommonData.h` and both variants of `fromHex` in `libdev/CommonData.cpp`: a bad
character throws, or makes the result empty.  The digits of a text are what follows an optional
`0x`; with an odd number of them the first one is a byte by itself.

`fromHex` reads exactly the texts whose digits all are hex digits, as the bytes of the number they
denote, and it reads back what `toHex` writes (`hex_codec_exact`).  So the text of a hash is read as
the hash, and `h256` of any other text is the number it denotes if it has 63 or 64 digits, and zero
otherwise.
-/

import EtcMiner.Common.BigEndian
import EtcMiner.Common.CommonData

namespace EtcMiner
namespace Common

open Lib

/-- `WhenError`. -/
inductive WhenError where
  | dontThrow
  | throw
deriving DecidableEq

/-- `HexPrefix`. -/
inductive HexPrefix where
  | dontAdd
  | add
deriving DecidableEq

/-- What the stream writes for one byte after `setw(width)`. -/
def byteText (width : ℕ) (b : Byte) : List Char := padLeft (Nat.toDigits 16 b.toNat) width '0'

/-- `toHex(_data, _w, _prefix)`: the width is that of the first byte. -/
def toHex (data : List Byte) (w : ℕ) (pre : HexPrefix) : List Char :=
  let text :=
    match data with
    | [] => []
    | b :: bs => byteText w b ++ bs.flatMap (byteText 2)
  if pre = .add then '0' :: 'x' :: text else text

/-- `FixedHash::hex(_prefix)`. -/
def FixedHash.hexText {n : ℕ} (h : FixedHash n) (pre : HexPrefix) : List Char := toHex (List.ofFn h) 2 pre

/-- What follows an optional `0x`. -/
def digitsOf (s : List Char) : List Char := if s.take 2 = ['0', 'x'] then s.drop 2 else s

/-- A character that is no digit: `BadHexCharacter` is thrown, or the result is empty. -/
def badHexCharacter : WhenError → Option (List Byte)
  | .throw => none
  | .dontThrow => some []

/-- The loop of `fromHex` over pairs of characters.  After the last one comes the terminator, which
is no digit. -/
def fromHexLoop (whenError : WhenError) : List Char → List Byte → Option (List Byte)
  | [], ret => some ret
  | [_], _ => badHexCharacter whenError
  | c :: d :: cs, ret =>
    match hexVal c, hexVal d with
    | some h, some l => fromHexLoop whenError cs (ret ++ [BitVec.ofNat 8 (h * 16 + l)])
    | _, _ => badHexCharacter whenError

/-- `fromHex(_s, _throw)`. -/
def fromHexWhen (s : List Char) (whenError : WhenError) : Option (List Byte) :=
  if s.length % 2 = 1 then
    match digitsOf s with
    | [] => badHexCharacter whenError
    | c :: cs =>
      match hexVal c with
      | some h => fromHexLoop whenError cs [BitVec.ofNat 8 h]
      | none => badHexCharacter whenError
  else fromHexLoop whenError (digitsOf s) []

section Reading

theorem fromHexLoop_throw (cs : List Char) (ret : List Byte) :
    fromHexLoop .throw cs ret = (fromHexPairs cs).map (ret ++ ·) := by
  induction cs using fromHexPairs.induct generalizing ret with
  | case1 => simp [fromHexLoop, fromHexPairs]
  | case2 c => rfl
  | case3 c d cs ih =>
    rw [fromHexLoop, fromHexPairs]
    cases hexVal c with
    | none => rfl
    | some h =>
      cases hexVal d with
      | none => rfl
      | some l =>
        dsimp only
        rw [ih]
        cases fromHexPairs cs <;> simp

/-- The two variants go wrong at the same characters. -/
theorem fromHexLoop_dontThrow (cs : List Char) (ret : List Byte) :
    fromHexLoop .dontThrow cs ret = some ((fromHexLoop .throw cs ret).getD []) := by
  induction cs using fromHexPairs.induct generalizing ret with
  | case1 => rfl
  | case2 c => rfl
  | case3 c d cs ih =>
    rw [fromHexLoop, fromHexLoop]
    cases hexVal c with
    | none => rfl
    | some h =>
      cases hexVal d with
      | none => rfl
      | some l => exact ih _

theorem fromHexWhen_throw (s : List Char) : fromHexWhen s .throw = fromHex s := by
  unfold fromHexWhen fromHex
  rw [← digitsOf]
  split_ifs
  · cases digitsOf s with
    | nil => rfl
    | cons c cs =>
      dsimp only
      cases hexVal c with
      | none => rfl
      | some h =>
        dsimp only
        rw [fromHexLoop_throw]
        cases fromHexPairs cs <;> simp
  · rw [fromHexLoop_throw]
    cases fromHexPairs (digitsOf s) <;> simp

theorem fromHexWhen_dontThrow (s : List Char) : fromHexWhen s .dontThrow = some ((fromHexWhen s .throw).getD []) := by
  unfold fromHexWhen
  split_ifs
  · cases digitsOf s with
    | nil => rfl
    | cons c cs =>
      dsimp only
      cases hexVal c with
      | none => rfl
      | some h => exact fromHexLoop_dontThrow cs _
  · exact fromHexLoop_dontThrow _ _

theorem isHexDigit_of_hexVal {c : Char} {h : ℕ} (hc : hexVal c = some h) : isHexDigit c := by
  rw [isHexDigit, hc]
  rfl

theorem lt_of_hexVal {c : Char} {h : ℕ} (hc : hexVal c = some h) : h < 16 := by
  have hlt := hexVal_getD_lt c
  rwa [hc, Option.getD_some] at hlt

/-- A byte weighs as much as two digits. -/
theorem pow_length_of_pairs {cs : List Char} {bs : List Byte} (hlength : cs.length = 2 * bs.length) :
    256 ^ bs.length = 16 ^ cs.length := by
  rw [hlength, pow_mul]
  rfl

/-- Pairs of characters that are read are digits, and the bytes form the number that they denote. -/
theorem fromHexPairs_eq_some {cs : List Char} {bs : List Byte} (h : fromHexPairs cs = some bs) :
    (∀ c ∈ cs, isHexDigit c) ∧ cs.length = 2 * bs.length ∧ beValue bs = hexValue cs := by
  induction cs using fromHexPairs.induct generalizing bs with
  | case1 =>
    obtain rfl := Option.some.inj h
    exact ⟨by simp, rfl, rfl⟩
  | case2 c => cases h
  | case3 c d cs ih =>
    simp only [fromHexPairs, Option.bind_eq_bind, Option.bind_eq_some_iff, Option.pure_def, Option.some_inj] at h
    obtain ⟨hi, hc, lo, hd, bs', hcs, rfl⟩ := h
    obtain ⟨hall, hlength, hvalue⟩ := ih hcs
    have hhi := lt_of_hexVal hc
    have hlo := lt_of_hexVal hd
    refine ⟨?_, by simp [hlength]; omega, ?_⟩
    · intro c' hc'
      rcases List.mem_cons.1 hc' with rfl | hc'
      · exact isHexDigit_of_hexVal hc
      · rcases List.mem_cons.1 hc' with rfl | hc'
        · exact isHexDigit_of_hexVal hd
        · exact hall c' hc'
    · have hbyte : (BitVec.ofNat 8 (hi * 16 + lo)).toNat = hi * 16 + lo := by
        rw [BitVec.toNat_ofNat]
        omega
      rw [beValue_cons, hvalue, pow_length_of_pairs hlength, hbyte, hexValue_cons, hexValue_cons, hc, hd,
        List.length_cons, pow_succ]
      simp only [Option.getD_some]
      ring

/-- An even number of digits is read. -/
theorem exists_fromHexPairs {cs : List Char} (hall : ∀ c ∈ cs, isHexDigit c) (heven : cs.length % 2 = 0) :
    ∃ bs, fromHexPairs cs = some bs := by
  induction cs using fromHexPairs.induct with
  | case1 => exact ⟨[], rfl⟩
  | case2 c => simp at heven
  | case3 c d cs ih =>
    obtain ⟨hi, hc⟩ := Option.isSome_iff_exists.1 (hall c (by simp))
    obtain ⟨lo, hd⟩ := Option.isSome_iff_exists.1 (hall d (by simp))
    obtain ⟨bs, hcs⟩ := ih (fun c' hc' => hall c' (by simp [hc'])) (by simp at heven; omega)
    exact ⟨BitVec.ofNat 8 (hi * 16 + lo) :: bs, by simp [fromHexPairs, hc, hd, hcs]⟩

/-- The prefix has two characters, so the digits are odd in number exactly if the text is. -/
theorem length_digitsOf_mod (s : List Char) : (digitsOf s).length % 2 = s.length % 2 := by
  unfold digitsOf
  split_ifs with h
  · have hlength := congrArg List.length h
    rw [List.length_take] at hlength
    rw [List.length_drop]
    simp at hlength
    omega
  · rfl

/-- **What `fromHex` reads**: digits, as the bytes of the number that they denote. -/
theorem fromHex_eq_some {s : List Char} {bs : List Byte} (h : fromHex s = some bs) :
    (∀ c ∈ digitsOf s, isHexDigit c) ∧ bs.length = ((digitsOf s).length + 1) / 2 ∧
      beValue bs = hexValue (digitsOf s) := by
  have hparity := length_digitsOf_mod s
  unfold fromHex at h
  rw [← digitsOf] at h
  split_ifs at h with hodd
  · cases hs : digitsOf s with
    | nil =>
      rw [hs] at h
      cases h
    | cons c cs =>
      simp only [hs, Option.bind_eq_bind, Option.bind_eq_some_iff, Option.pure_def, Option.some_inj] at h
      obtain ⟨hi, hc, bs', hcs, rfl⟩ := h
      obtain ⟨hall, hlength, hvalue⟩ := fromHexPairs_eq_some hcs
      have hhi := lt_of_hexVal hc
      refine ⟨?_, by simp [hlength]; omega, ?_⟩
      · intro c' hc'
        rcases List.mem_cons.1 hc' with rfl | hc'
        · exact isHexDigit_of_hexVal hc
        · exact hall c' hc'
      · have hbyte : (BitVec.ofNat 8 hi).toNat = hi := by
          rw [BitVec.toNat_ofNat]
          omega
        rw [beValue_cons, hvalue, pow_length_of_pairs hlength, hbyte, hexValue_cons, hc, Option.getD_some]
  · obtain ⟨hall, hlength, hvalue⟩ := fromHexPairs_eq_some h
    exact ⟨hall, by omega, hvalue⟩

theorem exists_fromHex {s : List Char} (hall : ∀ c ∈ digitsOf s, isHexDigit c) : ∃ bs, fromHex s = some bs := by
  have hparity := length_digitsOf_mod s
  unfold fromHex
  rw [← digitsOf]
  split_ifs with hodd
  · cases hs : digitsOf s with
    | nil =>
      rw [hs] at hparity
      simp [hodd] at hparity
    | cons c cs =>
      rw [hs] at hall hparity
      obtain ⟨hi, hc⟩ := Option.isSome_iff_exists.1 (hall c (by simp))
      obtain ⟨bs, hcs⟩ := exists_fromHexPairs (fun c' hc' => hall c' (by simp [hc'])) (by simp at hparity; omega : cs.length % 2 = 0)
      exact ⟨BitVec.ofNat 8 hi :: bs, by simp [hc, hcs]⟩
  · exact exists_fromHexPairs hall (by omega)

end Reading

section Writing

/-- A byte has two digits at most. -/
theorem byteText_two (b : Byte) : byteText 2 b = toHexDigits 2 b.toNat := by
  have hall : ∀ n : Fin 256, padLeft (Nat.toDigits 16 n) 2 '0' = toHexDigits 2 n := by decide +kernel
  exact hall ⟨b.toNat, b.isLt⟩

theorem toHex_two (data : List Byte) (pre : HexPrefix) :
    toHex data 2 pre = (if pre = .add then ['0', 'x'] else []) ++ data.flatMap fun b => toHexDigits 2 b.toNat := by
  have htext : (match data with | [] => [] | b :: bs => byteText 2 b ++ bs.flatMap (byteText 2)) =
      data.flatMap fun b => toHexDigits 2 b.toNat := by
    have hbyte : byteText 2 = fun b => toHexDigits 2 b.toNat := funext byteText_two
    cases data with
    | nil => rfl
    | cons b bs => rw [hbyte, List.flatMap_cons]
  unfold toHex
  rw [htext]
  split_ifs <;> rfl

/-- The digits of bytes do not start with `0x`. -/
theorem digitsOf_toHex (data : List Byte) (pre : HexPrefix) :
    digitsOf (toHex data 2 pre) = data.flatMap fun b => toHexDigits 2 b.toNat := by
  rw [toHex_two]
  unfold digitsOf
  cases pre with
  | add => exact if_pos rfl
  | dontAdd =>
    refine if_neg fun h => ?_
    cases data with
    | nil => cases h
    | cons b bs =>
      have hx : hexChar (b.toNat % 16) = 'x' := by
        simpa [toHexDigits_two] using congrArg (fun l => l.getD 1 '0') h
      have hdigit := hexVal_hexChar (Nat.mod_lt b.toNat (show 0 < 16 by omega))
      rw [hx] at hdigit
      cases hdigit

/-- **What is written is read back.** -/
theorem fromHex_toHex (data : List Byte) (pre : HexPrefix) : fromHex (toHex data 2 pre) = some data := by
  have heven : (toHex data 2 pre).length % 2 = 0 := by
    rw [← length_digitsOf_mod, digitsOf_toHex]
    simp
  rw [fromHex, ← digitsOf, if_neg (by omega), digitsOf_toHex, fromHexPairs_toHexDigits]

end Writing

section Hash

variable {n : ℕ}

theorem FixedHash.ofBytes_ofFn (h : FixedHash n) : FixedHash.ofBytes n (List.ofFn h) = h := by
  apply List.ofFn_injective
  rw [FixedHash.ofBytes, if_pos (by simp)]
  exact FixedHash.ofFn_ofList (by simp)

/-- Bytes of the right length are the number that they form. -/
theorem FixedHash.ofBytes_eq_ofArith {bs : List Byte} (h : bs.length = n) :
    FixedHash.ofBytes n bs = FixedHash.ofArith (BitVec.ofNat (8 * n) (beValue bs)) := by
  rw [← FixedHash.toArith_inj, FixedHash.toArith_ofArith]
  apply BitVec.eq_of_toNat_eq
  have hlt := beValue_lt bs
  rw [h, show 256 = 2 ^ 8 from rfl, ← pow_mul] at hlt
  rw [FixedHash.toNat_toArith, BitVec.toNat_ofNat, Nat.mod_eq_of_lt hlt, FixedHash.ofBytes, if_pos h]
  exact congrArg beValue (FixedHash.ofFn_ofList h)

theorem FixedHash.ofArith_zero : (FixedHash.ofArith 0 : FixedHash n) = fun _ => 0 := by
  rw [← FixedHash.toArith_inj, FixedHash.toArith_ofArith]
  apply BitVec.eq_of_toNat_eq
  rw [FixedHash.toNat_toArith, FixedHash.arith, List.ofFn_const]
  induction n with
  | zero => rfl
  | succ n ih =>
    rw [List.replicate_succ, beValue_cons, ← ih]
    simp

/-- The hash that `h256` gives for a text, if it reads it. -/
def denotedHash (s : List Char) : H256 :=
  if (digitsOf s).length = 63 ∨ (digitsOf s).length = 64 then
    FixedHash.ofArith (BitVec.ofNat (8 * 32) (hexValue (digitsOf s)))
  else FixedHash.ofArith 0

/-- **What `h256` makes of a text.** -/
theorem h256OfString_eq (s : List Char) :
    h256OfString s = if (digitsOf s).all isHexDigit then some (denotedHash s) else none := by
  unfold h256OfString
  split_ifs with hall
  · obtain ⟨bs, hbs⟩ := exists_fromHex (List.all_eq_true.1 hall)
    obtain ⟨-, hlength, hvalue⟩ := fromHex_eq_some hbs
    rw [hbs, Option.map_some]
    unfold denotedHash
    split_ifs with hd
    · rw [FixedHash.ofBytes_eq_ofArith (by omega), hvalue]
    · rw [FixedHash.ofBytes, if_neg (by omega), FixedHash.ofArith_zero]
  · cases hbs : fromHex s with
    | none => rfl
    | some bs => exact absurd (List.all_eq_true.2 (fromHex_eq_some hbs).1) hall

end Hash

/-- **The hex codec is exact.** -/
theorem hex_codec_exact :
    (∀ (b : List Byte) (pre : HexPrefix), fromHexWhen (toHex b 2 pre) .throw = some b) ∧
    (∀ s : List Char, if (digitsOf s).all isHexDigit then
      ∃ bs, fromHexWhen s .throw = some bs ∧ bs.length = ((digitsOf s).length + 1) / 2 ∧
        beValue bs = hexValue (digitsOf s)
      else fromHexWhen s .throw = none) ∧
    (∀ s : List Char, ∃ bs, fromHexWhen s .dontThrow = some bs ∧
      (bs = [] ↔ fromHexWhen s .throw = none ∨ (digitsOf s).length = 0)) ∧
    (∀ (h : H256) (pre : HexPrefix), h256OfString (FixedHash.hexText h pre) = some h) ∧
    ∀ s : List Char, h256OfString s = if (digitsOf s).all isHexDigit then some (denotedHash s) else none := by
  refine ⟨?_, ?_, ?_, ?_, h256OfString_eq⟩
  · intro b pre
    rw [fromHexWhen_throw, fromHex_toHex]
  · intro s
    rw [fromHexWhen_throw]
    split_ifs with hall
    · obtain ⟨bs, hbs⟩ := exists_fromHex (List.all_eq_true.1 hall)
      exact ⟨bs, hbs, (fromHex_eq_some hbs).2⟩
    · cases hbs : fromHex s with
      | none => rfl
      | some bs => exact absurd (List.all_eq_true.2 (fromHex_eq_some hbs).1) hall
  · intro s
    refine ⟨_, fromHexWhen_dontThrow s, ?_⟩
    rw [fromHexWhen_throw]
    cases hbs : fromHex s with
    | none => simp
    | some bs =>
      obtain ⟨-, hlength, -⟩ := fromHex_eq_some hbs
      rw [Option.getD_some, ← List.length_eq_zero_iff, hlength, or_iff_right (by simp)]
      omega
  · intro h pre
    rw [h256OfString, FixedHash.hexText, fromHex_toHex, Option.map_some, FixedHash.ofBytes_ofFn]

end Common
end EtcMiner
