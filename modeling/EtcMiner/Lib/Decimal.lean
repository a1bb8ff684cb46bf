/-
# Decimal numerals

The number of a string of decimal digits, `decimalValue`, and the texts in which a library prints a
number that is not negative: digits, then possibly a fraction, then possibly an exponent.  The text
splits at the dot (`DecimalText.dropWhile_text`), and without an exponent the digits before it are
the integer part (`DecimalText.floor_value`).
-/

import Mathlib.Algebra.Order.Archimedean.Basic
import Mathlib.Algebra.Order.Field.Power
import Mathlib.Algebra.Order.Floor.Ring
import Mathlib.Data.List.Induction
import Mathlib.Data.List.TakeWhile
import Mathlib.Data.Rat.Floor
import Mathlib.Tactic.Linarith
import Mathlib.Tactic.Positivity

namespace EtcMiner
namespace Lib

/-- The number of a string of decimal digits. -/
def decimalValue (s : List Char) : ℕ := s.foldl (fun n c => 10 * n + (c.toNat - 48)) 0

theorem decimalValue_append_singleton (s : List Char) (c : Char) :
    decimalValue (s ++ [c]) = 10 * decimalValue s + (c.toNat - 48) := by
  simp [decimalValue]

/-- The codes of the digits. -/
theorem isDigit_iff {c : Char} : c.isDigit = true ↔ 48 ≤ c.toNat ∧ c.toNat ≤ 57 := by
  delta Char.isDigit
  rw [Bool.and_eq_true, decide_eq_true_iff, decide_eq_true_iff]
  exact and_congr UInt32.le_iff_toNat_le UInt32.le_iff_toNat_le

theorem toNat_sub_lt_ten {c : Char} (hc : c.isDigit = true) : c.toNat - 48 < 10 := by
  obtain ⟨hlo, hhi⟩ := isDigit_iff.1 hc
  omega

theorem decimalValue_lt {s : List Char} (hs : s.all Char.isDigit = true) : decimalValue s < 10 ^ s.length := by
  induction s using List.reverseRecOn with
  | nil => simp [decimalValue]
  | append_singleton s c ih =>
    rw [List.all_append, Bool.and_eq_true] at hs
    have hc := toNat_sub_lt_ten (c := c) (by simpa using hs.2)
    have hprev := ih hs.1
    rw [decimalValue_append_singleton, List.length_append, List.length_singleton, pow_succ]
    omega

/-- Leading zeros do not count. -/
theorem decimalValue_dropWhile (s : List Char) : decimalValue (s.dropWhile (· = '0')) = decimalValue s := by
  induction s with
  | nil => rfl
  | cons c s ih =>
    by_cases hc : c = '0'
    · subst hc
      rw [List.dropWhile_cons_of_pos (by simp), ih]
      rfl
    · rw [List.dropWhile_cons_of_neg (by simp [hc])]

/-- A number as a library prints it. -/
structure DecimalText where
  whole : List Char
  whole_digits : whole.all Char.isDigit = true
  fraction : Option (List Char)
  fraction_digits : (fraction.getD []).all Char.isDigit = true
  /-- The sign and the digits. -/
  exponent : Option (Bool × List Char)
  exponent_digits : ((exponent.map Prod.snd).getD []).all Char.isDigit = true

namespace DecimalText

variable (r : DecimalText)

/-- The text of the exponent. -/
def exponentText : List Char :=
  match r.exponent with
  | none => []
  | some (neg, digits) => 'e' :: (if neg then '-' else '+') :: digits

/-- The text of the fraction. -/
def fractionText : List Char :=
  match r.fraction with
  | none => []
  | some digits => '.' :: digits

def text : List Char := r.whole ++ r.fractionText ++ r.exponentText

/-- The power of ten of the exponent. -/
def scale : ℤ :=
  match r.exponent with
  | none => 0
  | some (neg, digits) => if neg then -decimalValue digits else decimalValue digits

/-- The number the text denotes. -/
def value : ℚ :=
  (decimalValue r.whole + decimalValue (r.fraction.getD []) / 10 ^ (r.fraction.getD []).length) * 10 ^ r.scale

theorem value_nonneg : 0 ≤ r.value := by
  unfold value
  positivity

/-- Digits have no dot. -/
theorem ne_dot_of_isDigit {s : List Char} (hs : s.all Char.isDigit = true) : ∀ c ∈ s, decide (c ≠ '.') = true := by
  intro c hc
  rw [decide_eq_true_iff]
  rintro rfl
  exact absurd (List.all_eq_true.1 hs _ hc) (by decide)

theorem ne_dot_exponentText : ∀ c ∈ r.exponentText, decide (c ≠ '.') = true := by
  have hdigits := r.exponent_digits
  unfold exponentText
  cases hexp : r.exponent with
  | none => simp
  | some e =>
    rw [hexp] at hdigits
    intro c hc
    simp only [List.mem_cons] at hc
    rcases hc with rfl | rfl | hc
    · decide
    · split_ifs <;> decide
    · exact ne_dot_of_isDigit hdigits c hc

/-- **The text splits at the dot.** -/
theorem dropWhile_text : r.text.dropWhile (· ≠ '.') =
    match r.fraction with
    | none => []
    | some digits => '.' :: (digits ++ r.exponentText) := by
  have hwhole := ne_dot_of_isDigit r.whole_digits
  unfold text fractionText
  cases r.fraction with
  | none =>
    rw [List.append_nil, List.dropWhile_append_of_pos hwhole]
    exact List.dropWhile_eq_nil_iff.2 r.ne_dot_exponentText
  | some digits =>
    rw [List.append_assoc, List.dropWhile_append_of_pos hwhole, List.cons_append,
      List.dropWhile_cons_of_neg (by simp)]

/-- The digits before the dot are the integer part, if there is no exponent. -/
theorem floor_value (h : r.exponent = none) : ⌊r.value⌋ = decimalValue r.whole := by
  have hlt := decimalValue_lt r.fraction_digits
  have hpow : (0 : ℚ) < 10 ^ (r.fraction.getD []).length := by positivity
  have hfrac : (decimalValue (r.fraction.getD []) : ℚ) / 10 ^ (r.fraction.getD []).length < 1 := by
    rw [div_lt_one hpow]
    exact_mod_cast hlt
  have hnonneg : (0 : ℚ) ≤ decimalValue (r.fraction.getD []) / 10 ^ (r.fraction.getD []).length := by positivity
  have hscale : r.scale = 0 := by
    unfold scale
    rw [h]
  rw [Int.floor_eq_iff, value, hscale, zpow_zero, mul_one]
  push_cast
  exact ⟨by linarith, by linarith⟩

/-- What follows the integer part. -/
theorem value_sub_floor (h : r.exponent = none) :
    r.value - ⌊r.value⌋ = decimalValue (r.fraction.getD []) / 10 ^ (r.fraction.getD []).length := by
  have hscale : r.scale = 0 := by
    unfold scale
    rw [h]
  rw [r.floor_value h, value, hscale, zpow_zero, mul_one]
  push_cast
  ring

end DecimalText

end Lib
end EtcMiner
