/-
# The target of a difficulty

`getTargetFromDiff` in `libdev/CommonData.cpp` multiplies the largest target by `1 / diff`, the
integer part as a number and the decimal places as a text: what follows the dot is read as a whole
number and divided by the power of ten of its length.

That is exact for the texts without an exponent.  The library prints numbers below `1e-4` with one.
Then the decimal places end in `e-05` and are no number, which throws; and without a dot they are
left out, which is exact only if they come to less than one (`targetFromDiff_exact_iff`).
-/

import EtcMiner.Common.CommonData
import EtcMiner.Lib.Decimal

namespace EtcMiner
namespace Common

open Lib

/-- A target as a text. -/
def targetText (product : ℕ) : List Char := '0' :: 'x' :: padLeft (Nat.toDigits 16 product) 64 '0'

/-- The largest target times the number that `r` denotes, rounded down. -/
def exactTarget (r : DecimalText) : ℕ :=
  (targetBase * ⌊r.value⌋ + ⌊targetBase * (r.value - ⌊r.value⌋)⌋).toNat

/-- When the target is exact. -/
def TargetCondition (r : DecimalText) : Prop :=
  r.exponent = none ∨ r.fraction = none ∧ targetBase * (r.value - ⌊r.value⌋) < 1

section Text

/-- A numeral denotes its number. -/
theorem hexValue_toDigits (n : ℕ) : hexValue (Nat.toDigits 16 n) = n := by
  have hdigit (d : ℕ) (hd : d < 16) : hexVal (Nat.digitChar d) = some d := by
    interval_cases d <;> rfl
  induction n using Nat.strong_induction_on with
  | _ n ih =>
    rcases Nat.lt_or_ge n 16 with hlt | hge
    · rw [Nat.toDigits_of_lt_base hlt, hexValue_cons, hdigit n hlt]
      simp [hexValue]
    · rw [Nat.toDigits_of_base_le (by omega) hge, hexValue_append_singleton, ih (n / 16) (by omega),
        hdigit _ (Nat.mod_lt _ (by omega)), Option.getD_some]
      omega

theorem targetText_injective {m n : ℕ} (h : targetText m = targetText n) : m = n := by
  have htext := congrArg (fun s => hexValue (s.drop 2)) h
  simpa [targetText, padLeft, hexValue_append, hexValue_replicate_zero, hexValue_toDigits] using htext

end Text

variable (r : DecimalText)

theorem exactTarget_eq : (exactTarget r : ℤ) = targetBase * ⌊r.value⌋ + ⌊targetBase * (r.value - ⌊r.value⌋)⌋ := by
  have hwhole : 0 ≤ ⌊r.value⌋ := Int.floor_nonneg.2 r.value_nonneg
  have hrest : 0 ≤ r.value - ⌊r.value⌋ := sub_nonneg.2 (Int.floor_le r.value)
  have hfloor : 0 ≤ ⌊targetBase * (r.value - ⌊r.value⌋)⌋ := Int.floor_nonneg.2 (by positivity)
  exact Int.toNat_of_nonneg (by positivity)

/-- The two parts together are the product rounded down. -/
theorem exactTarget_eq_floor : (exactTarget r : ℤ) = ⌊targetBase * r.value⌋ := by
  have hsplit : targetBase * r.value = ((targetBase * ⌊r.value⌋ : ℤ) : ℚ) + targetBase * (r.value - ⌊r.value⌋) := by
    push_cast
    ring
  rw [exactTarget_eq, hsplit, Int.floor_intCast_add]

theorem exactTarget_ne_zero (h : 1 ≤ targetBase * r.value) : exactTarget r ≠ 0 := by
  have hfloor : 1 ≤ ⌊targetBase * r.value⌋ := Int.le_floor.2 (by exact_mod_cast h)
  have heq := exactTarget_eq_floor r
  omega

/-- The decimal places after a dot are read unless an exponent follows. -/
theorem decimalProduct_text : decimalProduct r.text =
    match r.fraction, r.exponent with
    | none, _ => some 0
    | some digits, none => some (targetBase * decimalValue digits / 10 ^ digits.length)
    | some _, some _ => none := by
  have hdigits := r.fraction_digits
  unfold decimalProduct
  rw [r.dropWhile_text]
  cases hfraction : r.fraction with
  | none => rfl
  | some digits =>
    rw [hfraction, Option.getD_some] at hdigits
    unfold DecimalText.exponentText
    cases r.exponent with
    | none =>
      have hall : (digits.dropWhile (· = '0')).all Char.isDigit = true :=
        List.all_eq_true.2 fun c hc => List.all_eq_true.1 hdigits c ((List.dropWhile_sublist _).subset hc)
      have hvalue : parseDecimal (digits.dropWhile (· = '0')) = some (decimalValue digits) := by
        rw [parseDecimal, if_pos hall, ← decimalValue, decimalValue_dropWhile]
      simp only [List.append_nil, hvalue, Option.bind_eq_bind, Option.bind_some, Option.pure_def]
    | some e =>
      -- the letter is neither a zero nor a digit
      have hnone (tail : List Char) : parseDecimal ((digits ++ 'e' :: tail).dropWhile (· = '0')) = none := by
        have hletter : 'e' ∈ (digits ++ 'e' :: tail).dropWhile (· = '0') := by
          rw [List.dropWhile_append]
          split_ifs with hzeros
          · rw [List.dropWhile_cons_of_neg (by decide)]
            exact List.mem_cons_self
          · simp
        exact if_neg fun hall => absurd (List.all_eq_true.1 hall _ hletter) (by decide)
      simp only [hnone, Option.bind_eq_bind, Option.bind_none]

/-- Without a dot the decimal places are left out. -/
theorem exactTarget_eq_whole_iff :
    targetBase * ⌊r.value⌋.toNat = exactTarget r ↔ targetBase * (r.value - ⌊r.value⌋) < 1 := by
  have hwhole : 0 ≤ ⌊r.value⌋ := Int.floor_nonneg.2 r.value_nonneg
  have hrest : 0 ≤ r.value - ⌊r.value⌋ := sub_nonneg.2 (Int.floor_le r.value)
  have hfloor : ⌊targetBase * (r.value - ⌊r.value⌋)⌋ = 0 ↔ targetBase * (r.value - ⌊r.value⌋) < 1 := by
    rw [Int.floor_eq_zero_iff]
    exact ⟨fun h => h.2, fun h => ⟨by positivity, h⟩⟩
  have hcast : ((targetBase * ⌊r.value⌋.toNat : ℕ) : ℤ) = targetBase * ⌊r.value⌋ := by
    rw [Nat.cast_mul, Int.toNat_of_nonneg hwhole]
  rw [← hfloor, ← Nat.cast_inj (R := ℤ), exactTarget_eq, hcast]
  omega

/-- Without an exponent the decimal places are a fraction of a power of ten. -/
theorem exactTarget_eq_of_fraction {digits : List Char} (hfraction : r.fraction = some digits) (hexponent : r.exponent = none) :
    exactTarget r = targetBase * ⌊r.value⌋.toNat + targetBase * decimalValue digits / 10 ^ digits.length := by
  have hwhole : 0 ≤ ⌊r.value⌋ := Int.floor_nonneg.2 r.value_nonneg
  have hfloor : ⌊targetBase * ((decimalValue digits : ℚ) / 10 ^ digits.length)⌋ =
      (targetBase * decimalValue digits / 10 ^ digits.length : ℕ) := by
    rw [← mul_div_assoc]
    exact_mod_cast Rat.floor_natCast_div_natCast (targetBase * decimalValue digits) (10 ^ digits.length)
  have hrest := r.value_sub_floor hexponent
  rw [hfraction, Option.getD_some] at hrest
  rw [← Nat.cast_inj (R := ℤ), exactTarget_eq, hrest, hfloor, Nat.cast_add, Nat.cast_mul, Int.toNat_of_nonneg hwhole]

variable {r} {diff inverse : ℚ}

theorem getTargetFromDiff_text (hdiff : 0 < diff) (hinverse : ⌊inverse⌋ = ⌊r.value⌋) :
    getTargetFromDiff diff inverse r.text =
      (decimalProduct r.text).map fun p => targetText (targetBase * ⌊r.value⌋.toNat + p) := by
  unfold getTargetFromDiff
  rw [if_neg hdiff.ne', hinverse]
  cases decimalProduct r.text <;> rfl

/-- **A difficulty is converted to its target exactly** if its inverse is printed without an exponent,
or without a dot and with less than one to leave out. -/
theorem targetFromDiff_exact_iff (diff inverse : ℚ) (r : DecimalText) (hdiff : 0 < diff)
    (hinverse : ⌊inverse⌋ = ⌊r.value⌋) :
    (getTargetFromDiff diff inverse r.text = some (targetText (exactTarget r)) ∧
      (1 ≤ targetBase * r.value → exactTarget r ≠ 0)) ↔ TargetCondition r := by
  rw [and_iff_left (exactTarget_ne_zero r), getTargetFromDiff_text hdiff hinverse, decimalProduct_text]
  unfold TargetCondition
  cases hfraction : r.fraction with
  | none =>
    have hplain : r.exponent = none → targetBase * (r.value - ⌊r.value⌋) < 1 := by
      intro hexponent
      rw [r.value_sub_floor hexponent, hfraction]
      simp [decimalValue]
    simp only [Option.map_some, Nat.add_zero, Option.some_inj, true_and]
    rw [or_iff_right_of_imp hplain, ← exactTarget_eq_whole_iff]
    exact ⟨targetText_injective, congrArg targetText⟩
  | some digits =>
    cases hexponent : r.exponent with
    | none =>
      refine iff_of_true ?_ (.inl rfl)
      rw [exactTarget_eq_of_fraction r hfraction hexponent]
      rfl
    | some e => simp

/-- The text of `1 / 4`. -/
def quarter : DecimalText where
  whole := "0".toList
  whole_digits := by decide
  fraction := some "25".toList
  fraction_digits := by decide
  exponent := none
  exponent_digits := rfl

/-- The difficulty 4. -/
theorem targetFromDiff_exact_four : quarter.text = "0.25".toList ∧
    getTargetFromDiff 4 (1 / 4) quarter.text = some (targetText (exactTarget quarter)) := by
  refine ⟨by decide, ((targetFromDiff_exact_iff 4 (1 / 4) quarter (by norm_num) ?_).2 (.inl rfl)).1⟩
  decide +kernel

/-- The text of `1 / 131072`. -/
def smallInverse : DecimalText where
  whole := "7".toList
  whole_digits := by decide
  fraction := some "62939453125".toList
  fraction_digits := by decide
  exponent := some (true, "06".toList)
  exponent_digits := by decide

/-- **The difficulty 131072 throws**: the decimal places of its inverse end in `e-06`. -/
theorem exponent_throws : smallInverse.text = "7.62939453125e-06".toList ∧ smallInverse.value = 1 / 131072 ∧
    1 ≤ targetBase * smallInverse.value ∧ getTargetFromDiff 131072 (1 / 131072) smallInverse.text = none := by
  have hvalue : smallInverse.value = 1 / 131072 := by decide +kernel
  refine ⟨by decide, hvalue, ?_, by decide +kernel⟩
  rw [hvalue, targetBase]
  norm_num

end Common
end EtcMiner
