/-
# Hexadecimal numerals

The digits of a number, `toHexDigits`, and the number of a string of digits,
`hexValue`, with the character of a string standing for a byte.  Writing then
reading is the identity up to the width (`hexValue_toHexDigits`), reading then
writing gives the digits back in lower case (`toHexDigits_hexValue`), and the first
digits of a numeral are the numeral of the high part (`take_toHexDigits`).  So a
numeral starts with given digits exactly when its high part is their value
(`toHexDigits_eq_append_iff`).
-/

import Mathlib.Algebra.Order.Ring.Nat
import Mathlib.Data.List.Induction
import Mathlib.Tactic.IntervalCases
import Mathlib.Tactic.Linarith
import Mathlib.Tactic.Ring

namespace EtcMiner
namespace Lib

/-- The value of a hex digit of either case. -/
def hexVal (c : Char) : Option ℕ :=
  if 48 ≤ c.toNat ∧ c.toNat ≤ 57 then some (c.toNat - 48)
  else if 97 ≤ c.toNat ∧ c.toNat ≤ 102 then some (c.toNat - 87)
  else if 65 ≤ c.toNat ∧ c.toNat ≤ 70 then some (c.toNat - 55)
  else none

/-- The hex digits of both cases. -/
def isHexDigit (c : Char) : Bool := (hexVal c).isSome

/-- The lower-case hex digit of a value below 16. -/
def hexChar (d : ℕ) : Char := if d < 10 then Char.ofNat (48 + d) else Char.ofNat (87 + d)

/-- The numeral of `n` in `width` digits, the low ones if it has more. -/
def toHexDigits : ℕ → ℕ → List Char
  | 0, _ => []
  | width + 1, n => toHexDigits width (n / 16) ++ [hexChar (n % 16)]

/-- The number of a numeral; a character that is no digit counts as zero. -/
def hexValue (cs : List Char) : ℕ := cs.foldl (fun acc c => 16 * acc + (hexVal c).getD 0) 0

@[simp] theorem length_toHexDigits (width n : ℕ) : (toHexDigits width n).length = width := by
  induction width generalizing n with
  | zero => rfl
  | succ width ih => simp [toHexDigits, ih]

theorem hexValue_append_singleton (cs : List Char) (c : Char) :
    hexValue (cs ++ [c]) = 16 * hexValue cs + (hexVal c).getD 0 := by
  simp [hexValue]

theorem hexValue_append (cs ds : List Char) : hexValue (cs ++ ds) = hexValue cs * 16 ^ ds.length + hexValue ds := by
  induction ds using List.reverseRecOn with
  | nil => simp [hexValue]
  | append_singleton ds d ih =>
    rw [← List.append_assoc, hexValue_append_singleton, ih, hexValue_append_singleton, List.length_append,
      List.length_singleton, pow_succ]
    ring

theorem hexValue_cons (c : Char) (cs : List Char) :
    hexValue (c :: cs) = (hexVal c).getD 0 * 16 ^ cs.length + hexValue cs := by
  rw [← List.singleton_append, hexValue_append]
  simp [hexValue]

theorem hexValue_replicate_zero (n : ℕ) : hexValue (List.replicate n '0') = 0 := by
  induction n with
  | zero => rfl
  | succ n ih =>
    rw [List.replicate_succ', hexValue_append_singleton, ih]
    rfl

theorem hexVal_getD_lt (c : Char) : (hexVal c).getD 0 < 16 := by
  unfold hexVal
  split_ifs <;> simp <;> omega

theorem hexVal_hexChar {d : ℕ} (hd : d < 16) : hexVal (hexChar d) = some d := by
  interval_cases d <;> rfl

/-- The codes of the digits. -/
theorem toNat_of_isHexDigit {c : Char} (hc : isHexDigit c) :
    48 ≤ c.toNat ∧ c.toNat ≤ 57 ∨ 97 ≤ c.toNat ∧ c.toNat ≤ 102 ∨ 65 ≤ c.toNat ∧ c.toNat ≤ 70 := by
  unfold isHexDigit hexVal at hc
  split_ifs at hc with h₁ h₂ h₃
  · exact Or.inl h₁
  · exact Or.inr (Or.inl h₂)
  · exact Or.inr (Or.inr h₃)
  · simp at hc

/-- The digit of a character is the character in lower case. -/
theorem toLower_eq_hexChar {c : Char} (hc : isHexDigit c) : c.toLower = hexChar ((hexVal c).getD 0) := by
  have hrange := toNat_of_isHexDigit hc
  obtain ⟨n, hn⟩ : ∃ n, n = c.toNat := ⟨_, rfl⟩
  have hchar : c = Char.ofNat n := by rw [hn, Char.ofNat_toNat]
  rw [← hn] at hrange
  subst hchar
  rcases hrange with ⟨hlo, hhi⟩ | ⟨hlo, hhi⟩ | ⟨hlo, hhi⟩ <;> interval_cases n <;> rfl

theorem hexValue_lt (cs : List Char) : hexValue cs < 16 ^ cs.length := by
  induction cs using List.reverseRecOn with
  | nil => simp [hexValue]
  | append_singleton cs c ih =>
    have hc := hexVal_getD_lt c
    rw [hexValue_append_singleton, List.length_append, List.length_singleton, pow_succ]
    omega

/-- **Writing, then reading.** -/
theorem hexValue_toHexDigits (width n : ℕ) : hexValue (toHexDigits width n) = n % 16 ^ width := by
  induction width generalizing n with
  | zero => simp [toHexDigits, hexValue, Nat.mod_one]
  | succ width ih =>
    rw [toHexDigits, hexValue_append_singleton, ih, hexVal_hexChar (Nat.mod_lt _ (by omega)),
      Option.getD_some, pow_succ', Nat.mod_mul]
    omega

/-- **Reading, then writing**, gives the digits back in lower case. -/
theorem toHexDigits_hexValue {cs : List Char} (hcs : ∀ c ∈ cs, isHexDigit c) :
    toHexDigits cs.length (hexValue cs) = cs.map Char.toLower := by
  induction cs using List.reverseRecOn with
  | nil => rfl
  | append_singleton cs c ih =>
    have hc := hexVal_getD_lt c
    have hlower := toLower_eq_hexChar (hcs c (by simp))
    have hcs' : ∀ c' ∈ cs, isHexDigit c' := fun c' hc' => hcs c' (by simp [hc'])
    have hdiv : (16 * hexValue cs + (hexVal c).getD 0) / 16 = hexValue cs := by omega
    have hmod : (16 * hexValue cs + (hexVal c).getD 0) % 16 = (hexVal c).getD 0 := by omega
    rw [hexValue_append_singleton, List.length_append, List.length_singleton, toHexDigits, hdiv, hmod,
      ih hcs', List.map_append, ← hlower]
    rfl

/-- The first digits of a numeral are the numeral of its high part. -/
theorem take_toHexDigits {k width : ℕ} (h : k ≤ width) (n : ℕ) :
    (toHexDigits width n).take k = toHexDigits k (n / 16 ^ (width - k)) := by
  induction width generalizing n with
  | zero =>
    obtain rfl : k = 0 := by omega
    rfl
  | succ width ih =>
    rcases Nat.lt_or_ge width k with hlt | hle
    · obtain rfl : k = width + 1 := by omega
      rw [Nat.sub_self, pow_zero, Nat.div_one, List.take_of_length_le (by simp)]
    · rw [toHexDigits, List.take_append_of_le_length (by simpa using hle), ih hle,
        Nat.div_div_eq_div_mul, ← pow_succ', show width + 1 - k = width - k + 1 by omega]

theorem toHexDigits_inj {width m n : ℕ} (hm : m < 16 ^ width) (hn : n < 16 ^ width) :
    toHexDigits width m = toHexDigits width n ↔ m = n := by
  refine ⟨fun h => ?_, fun h => by rw [h]⟩
  have hvalue := congrArg hexValue h
  rwa [hexValue_toHexDigits, hexValue_toHexDigits, Nat.mod_eq_of_lt hm, Nat.mod_eq_of_lt hn] at hvalue

/-- **A numeral starts with given digits**, in lower case, exactly when its high
part is their value. -/
theorem toHexDigits_eq_append_iff {width n : ℕ} (hn : n < 16 ^ width) {cs : List Char}
    (hcs : ∀ c ∈ cs, isHexDigit c) (hlen : cs.length ≤ width) :
    toHexDigits width n = cs.map Char.toLower ++ (toHexDigits width n).drop cs.length ↔
      n / 16 ^ (width - cs.length) = hexValue cs := by
  have hpow : 16 ^ width = 16 ^ (width - cs.length) * 16 ^ cs.length := by
    rw [← pow_add, Nat.sub_add_cancel hlen]
  have hhigh : n / 16 ^ (width - cs.length) < 16 ^ cs.length :=
    Nat.div_lt_of_lt_mul (hpow ▸ hn)
  have hsplit := List.take_append_drop cs.length (toHexDigits width n)
  rw [take_toHexDigits hlen] at hsplit
  rw [← toHexDigits_hexValue hcs, ← toHexDigits_inj hhigh (hexValue_lt cs)]
  nth_rewrite 1 [← hsplit]
  exact List.append_left_inj _

end Lib
end EtcMiner
