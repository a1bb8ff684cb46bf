/-
# Reading hexadecimal numerals in C

`strtoull(s, nullptr, 16)` skips blanks, takes a sign and a prefix `0x`, reads the
digits that follow and ignores the rest; it saturates above `2 ^ 64 - 1` and
negates modulo `2 ^ 64`.  `std::stoull` and `std::stoul` throw where no digit is
read and where the number does not fit; `std::stoi` reads a `long` and throws where
that or the `int` does not fit.  A thrown `std::exception` is `none`.

On a string of at most sixteen hex digits all of them read the number it denotes
(`scanHex_digits`, `strtoull16_digits`), and so they do with the prefix `0x`
(`scanHex_prefixed`).
-/

import EtcMiner.Lib.Hex
import Mathlib.Data.List.TakeWhile

namespace EtcMiner
namespace Lib

/-- `isspace` in the C locale. -/
def isSpace (c : Char) : Bool := c.toNat = 32 || (9 ≤ c.toNat && c.toNat ≤ 13)

/-- The sign of a numeral, and what follows it. -/
def takeSign : List Char → Bool × List Char
  | '-' :: cs => (true, cs)
  | '+' :: cs => (false, cs)
  | cs => (false, cs)

/-- What follows the prefix `0x` or `0X`; it is one only before a digit. -/
def dropPrefix0x : List Char → List Char
  | '0' :: x :: d :: cs => if (x = 'x' || x = 'X') && isHexDigit d then d :: cs else '0' :: x :: d :: cs
  | cs => cs

/-- The sign and the magnitude of the numeral a string starts with, if it starts
with one. -/
def scanHex (s : List Char) : Option (Bool × ℕ) :=
  let (neg, cs) := takeSign (s.dropWhile isSpace)
  let digits := (dropPrefix0x cs).takeWhile isHexDigit
  if digits = [] then none else some (neg, hexValue digits)

/-- `strtoull(s, nullptr, 16)`. -/
def strtoull16 (s : List Char) : BitVec 64 :=
  match scanHex s with
  | none => 0
  | some (neg, v) =>
    if v < 2 ^ 64 then (if neg then -BitVec.ofNat 64 v else BitVec.ofNat 64 v) else BitVec.allOnes 64

/-- `std::stoull(s, nullptr, 16)`, and `std::stoul` where a `long` has 64 bits. -/
def stoull16 (s : List Char) : Option (BitVec 64) :=
  match scanHex s with
  | none => none
  | some (neg, v) =>
    if v < 2 ^ 64 then some (if neg then -BitVec.ofNat 64 v else BitVec.ofNat 64 v) else none

/-- `std::stoi(s, nullptr, 16)`. -/
def stoi16 (s : List Char) : Option ℤ :=
  match scanHex s with
  | none => none
  | some (neg, v) =>
    let n : ℤ := if neg then -v else v
    if -2 ^ 31 ≤ n ∧ n < 2 ^ 31 then some n else none

theorem isSpace_of_isHexDigit {c : Char} (hc : isHexDigit c) : isSpace c = false := by
  have hrange := toNat_of_isHexDigit hc
  simp [isSpace]
  omega

theorem ne_of_isHexDigit {c c' : Char} (hc : isHexDigit c) (hc' : isHexDigit c' = false) : c ≠ c' := by
  rintro rfl
  rw [hc] at hc'
  exact Bool.noConfusion hc'

/-- A string of digits has no blanks, no sign and no prefix. -/
theorem scanHex_digits {s : List Char} (hs : ∀ c ∈ s, isHexDigit c) (hne : s ≠ []) :
    scanHex s = some (false, hexValue s) := by
  obtain ⟨c, cs, rfl⟩ := List.exists_cons_of_ne_nil hne
  have hc : isHexDigit c := hs c (by simp)
  have hblank : (c :: cs).dropWhile isSpace = c :: cs := by
    rw [List.dropWhile_cons_of_neg (by simp [isSpace_of_isHexDigit hc])]
  have hsign : takeSign (c :: cs) = (false, c :: cs) := by
    unfold takeSign
    split
    · rename_i h
      exact absurd (List.cons.inj h).1 (ne_of_isHexDigit hc (by decide))
    · rename_i h
      exact absurd (List.cons.inj h).1 (ne_of_isHexDigit hc (by decide))
    · rfl
  have hdrop : dropPrefix0x (c :: cs) = c :: cs := by
    unfold dropPrefix0x
    split
    · rename_i x d cs' h
      have hx : isHexDigit x := hs x (by rw [h]; simp)
      rw [if_neg, h]
      simp [ne_of_isHexDigit hx (show isHexDigit 'x' = false by decide),
        ne_of_isHexDigit hx (show isHexDigit 'X' = false by decide)]
    · rfl
  have hdigits : (c :: cs).takeWhile isHexDigit = c :: cs := List.takeWhile_eq_self_iff.2 hs
  simp only [scanHex, hblank, hsign, hdrop, hdigits]
  rw [if_neg (by simp)]

theorem hexValue_lt_two_pow {s : List Char} (hlen : s.length ≤ 16) : hexValue s < 2 ^ 64 :=
  calc hexValue s < 16 ^ s.length := hexValue_lt s
    _ ≤ 16 ^ 16 := Nat.pow_le_pow_right (by omega) hlen
    _ = 2 ^ 64 := by norm_num

/-- **A string of digits is read as the number it denotes.** -/
theorem strtoull16_digits {s : List Char} (hs : ∀ c ∈ s, isHexDigit c) (hne : s ≠ [])
    (hlen : s.length ≤ 16) : strtoull16 s = BitVec.ofNat 64 (hexValue s) := by
  rw [strtoull16, scanHex_digits hs hne]
  simp only
  rw [if_pos (hexValue_lt_two_pow hlen), if_neg (by simp)]

theorem stoull16_digits {s : List Char} (hs : ∀ c ∈ s, isHexDigit c) (hne : s ≠ [])
    (hlen : s.length ≤ 16) : stoull16 s = some (BitVec.ofNat 64 (hexValue s)) := by
  rw [stoull16, scanHex_digits hs hne]
  simp only
  rw [if_pos (hexValue_lt_two_pow hlen), if_neg (by simp)]

/-- The prefix `0x` before digits. -/
theorem scanHex_prefixed {s : List Char} (hs : ∀ c ∈ s, isHexDigit c) (hne : s ≠ []) :
    scanHex ('0' :: 'x' :: s) = some (false, hexValue s) := by
  obtain ⟨d, cs, rfl⟩ := List.exists_cons_of_ne_nil hne
  have hdrop : dropPrefix0x ('0' :: 'x' :: d :: cs) = d :: cs := if_pos (by simp [hs d])
  have hdigits : (d :: cs).takeWhile isHexDigit = d :: cs := List.takeWhile_eq_self_iff.2 hs
  have hblank : ('0' :: 'x' :: d :: cs).dropWhile isSpace = '0' :: 'x' :: d :: cs := rfl
  have hsign : takeSign ('0' :: 'x' :: d :: cs) = (false, '0' :: 'x' :: d :: cs) := rfl
  simp only [scanHex, hblank, hsign, hdrop, hdigits]
  rw [if_neg (by simp)]

theorem stoull16_prefixed {s : List Char} (hs : ∀ c ∈ s, isHexDigit c) (hne : s ≠ []) :
    stoull16 ('0' :: 'x' :: s) = if hexValue s < 2 ^ 64 then some (BitVec.ofNat 64 (hexValue s)) else none := by
  rw [stoull16, scanHex_prefixed hs hne]
  rfl

example : strtoull16 "  +0x1Fz".toList = 31 ∧ stoull16 "0x".toList = some 0 ∧
    stoull16 "x".toList = none ∧ stoi16 "-10".toList = some (-16) := by decide

end Lib
end EtcMiner
