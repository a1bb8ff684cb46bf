/-
# Numbers with a suffix

`getScaledSize`, `getFormattedHashes` and `getFormattedMemory` in `libdev/CommonData.cpp`.  A value is
divided until it is not above the divisor or the loop has used up the table, and the index of the
loop selects the suffix.

The bound of the loop, `i <= (_numsizes - 1)`, lets it go on from the last entry, so the index may come
out as the number of entries.  With exact arithmetic it does so exactly if the value is above
`divisor ^ n` for a table of `n` entries (`scaleDown_exact_le_iff`).  With the rounding of a machine the
values up to `divisor ^ n` stay inside the table and those from `divisor ^ (n + 1)` on do not
(`Rounding.scaleDown_le`, `Rounding.lt_scaleDown`), if the rounding is monotone and keeps the powers of the
divisor.

What a read past the table gives is not defined; it is an error of the model (`FormatError.pastTable`).
How numbers are printed and rounded is a parameter.
-/

import EtcMiner.Common.CommonData
import EtcMiner.Lib.BoundedWhile
import Mathlib.Algebra.Order.Field.Basic
import Mathlib.Tactic.Positivity

namespace EtcMiner
namespace Common

open Lib

/-- How numbers are rounded and printed: `<< fixed << setprecision(n)`. -/
structure FloatText where
  printFixed : ℕ → ℚ → List Char
  toDouble : ℚ → ℚ
  toFloat : ℚ → ℚ

/-- Arithmetic without rounding. -/
def FloatText.exact (printFixed : ℕ → ℚ → List Char) : FloatText := ⟨printFixed, id, id⟩

/-- `ScaleSuffix`. -/
inductive ScaleSuffix where
  | dontAdd
  | add
deriving DecidableEq

/-- A table of suffixes. -/
structure Suffixes where
  entries : List String
  ne_nil : entries ≠ []

/-- A table with its entries written out. -/
def Suffixes.of (first : String) (rest : List String) : Suffixes := ⟨first :: rest, List.cons_ne_nil first rest⟩

/-- `_numsizes`. -/
def Suffixes.numsizes (sizes : Suffixes) : ℕ := sizes.entries.length

theorem Suffixes.numsizes_pos (sizes : Suffixes) : 0 < sizes.numsizes := List.length_pos_iff.2 sizes.ne_nil

/-- Why no text comes out: the division throws, or the suffix is read past its table. -/
inductive FormatError where
  | divisionByZero
  | pastTable
deriving DecidableEq

/-- `while (value > divisor && i <= last) { value /= divisor; i++; }` with the rounding of the type of
`value`. -/
def scaleDown (round : ℚ → ℚ) (divisor : ℚ) (last : ℕ) (value : ℚ) : ℚ × ℕ :=
  boundedWhile (fun v => decide (divisor < v)) (fun v => round (v / divisor)) last value

/-- `_sizes[i]`. -/
def Suffixes.read (sizes : Suffixes) (i : ℕ) : Except FormatError (List Char) :=
  match sizes.entries[i]? with
  | some suffix => .ok suffix.toList
  | none => .error .pastTable

section Formatting

variable (ft : FloatText)

/-- The loop of `getScaledSize`: `_newvalue` and `i`. -/
def scaledSize (value divisor : ℚ) (sizes : Suffixes) : ℚ × ℕ := scaleDown ft.toDouble divisor (sizes.numsizes - 1) value

/-- `getScaledSize`. -/
def getScaledSize (value divisor : ℚ) (precision : ℕ) (sizes : Suffixes) (suffix : ScaleSuffix) :
    Except FormatError (List Char) := do
  let scaled := scaledSize ft value divisor sizes
  let text := ft.printFixed precision scaled.1
  match suffix with
  | .add => return text ++ " ".toList ++ (← sizes.read scaled.2)
  | .dontAdd => return text

/-- `suffixes` in `getFormattedHashes`. -/
def hashSuffixes : Suffixes := .of "h" ["Kh", "Mh", "Gh", "Th", "Ph"]

/-- `suffixes` in `getFormattedMemory`. -/
def memorySuffixes : Suffixes := .of "B" ["KB", "MB", "GB"]

/-- `getFormattedHashes`. -/
def getFormattedHashes (hr : ℚ) (suffix : ScaleSuffix := .add) (precision : ℕ := 2) : Except FormatError (List Char) :=
  getScaledSize ft hr 1000 precision hashSuffixes suffix

/-- `getFormattedMemory`. -/
def getFormattedMemory (mem : ℚ) (suffix : ScaleSuffix := .add) (precision : ℕ := 2) : Except FormatError (List Char) :=
  getScaledSize ft mem 1024 precision memorySuffixes suffix

/-- The difficulty of a boundary or of a final hash as text:
`getFormattedHashes(getHashesToTarget(hash.hex(HexPrefix::Add)))`. -/
def formatDifficulty (hash : H256) : Except FormatError (List Char) :=
  match getHashesToTarget (FixedHash.hex hash) with
  | none => .error .divisionByZero
  | some hashes => getFormattedHashes ft (ft.toDouble hashes)

end Formatting

section Scaling

variable {round : ℚ → ℚ} {divisor value : ℚ} {last : ℕ}

theorem scaleDown_le_iff : (scaleDown round divisor last value).2 ≤ last ↔
    ∃ j ≤ last, (fun v => round (v / divisor))^[j] value ≤ divisor := by
  simp only [scaleDown, boundedWhile_le_iff, decide_eq_false_iff_not, not_lt]

theorem iterate_div (divisor value : ℚ) (k : ℕ) : (fun v => id (v / divisor))^[k] value = value / divisor ^ k := by
  induction k with
  | zero => rw [Function.iterate_zero_apply, pow_zero, div_one]
  | succ k ih => rw [Function.iterate_succ_apply', ih, id_eq, pow_succ, div_div]

/-- **Without rounding** the index stays inside the table exactly for the values up to the power of the
divisor for its last entry. -/
theorem scaleDown_exact_le_iff (hdivisor : 1 < divisor) :
    (scaleDown id divisor last value).2 ≤ last ↔ value ≤ divisor ^ (last + 1) := by
  have hpow (k : ℕ) : 0 < divisor ^ k := pow_pos (one_pos.trans hdivisor) k
  have hround (k : ℕ) : (fun v => id (v / divisor))^[k] value ≤ divisor ↔ value ≤ divisor ^ (k + 1) := by
    rw [iterate_div, div_le_iff₀ (hpow k), pow_succ']
  simp only [scaleDown_le_iff, hround]
  constructor
  · rintro ⟨j, hj, hle⟩
    exact hle.trans (pow_le_pow_right₀ hdivisor.le (by omega))
  · intro hle
    exact ⟨last, le_rfl, hle⟩

/-- What the quotients of a floating point type have: rounding keeps the order and the powers of the
divisor up to `n`. -/
structure Rounding (round : ℚ → ℚ) (divisor : ℚ) (n : ℕ) : Prop where
  mono : Monotone round
  power : ∀ k ≤ n, round (divisor ^ k) = divisor ^ k

namespace Rounding

variable {n k : ℕ} (h : Rounding round divisor n) (hdivisor : 1 < divisor)

include h hdivisor

theorem iterate_le (hk : k ≤ n) (hvalue : value ≤ divisor ^ (k + 1)) :
    (fun v => round (v / divisor))^[k] value ≤ divisor := by
  induction k generalizing value with
  | zero => rwa [Function.iterate_zero_apply, ← pow_one divisor]
  | succ k ih =>
    rw [Function.iterate_succ_apply]
    refine ih (by omega) ?_
    have hquotient : value / divisor ≤ divisor ^ (k + 1) := by
      rwa [div_le_iff₀ (one_pos.trans hdivisor), ← pow_succ]
    rw [← h.power (k + 1) hk]
    exact h.mono hquotient

theorem le_iterate (hk : k < n) (hvalue : divisor ^ (k + 2) ≤ value) :
    divisor ^ 2 ≤ (fun v => round (v / divisor))^[k] value := by
  induction k generalizing value with
  | zero => exact hvalue
  | succ k ih =>
    rw [Function.iterate_succ_apply]
    refine ih (by omega) ?_
    have hquotient : divisor ^ (k + 2) ≤ value / divisor := by
      rwa [le_div_iff₀ (one_pos.trans hdivisor), ← pow_succ]
    rw [← h.power (k + 2) hk]
    exact h.mono hquotient

/-- **Rounding leads nowhere past the table** for the values up to the power for its last entry. -/
theorem scaleDown_le (hlast : last ≤ n) (hvalue : value ≤ divisor ^ (last + 1)) :
    (scaleDown round divisor last value).2 ≤ last :=
  scaleDown_le_iff.2 ⟨last, le_rfl, h.iterate_le hdivisor hlast hvalue⟩

/-- **Nor does it keep inside** a value that is another divisor larger. -/
theorem lt_scaleDown (hlast : last < n) (hvalue : divisor ^ (last + 2) ≤ value) :
    last < (scaleDown round divisor last value).2 := by
  rw [← not_le, scaleDown_le_iff]
  rintro ⟨j, hj, hle⟩
  have hlarge : divisor ^ (j + 2) ≤ value := (pow_le_pow_right₀ hdivisor.le (by omega)).trans hvalue
  have hsquare : divisor < divisor ^ 2 := lt_self_pow₀ hdivisor (by omega)
  exact absurd (hsquare.trans_le (h.le_iterate hdivisor (by omega) hlarge)) (not_lt.2 hle)

end Rounding

end Scaling

section Reading

variable {ft : FloatText}

/-- What is made of a result does not fail by itself. -/
theorem map_eq_error_iff {ε α β : Type} {x : Except ε α} {f : α → β} {e : ε} :
    (do return f (← x)) = .error e ↔ x = .error e := by
  cases x with
  | error e' =>
    change (Except.error e' : Except ε β) = .error e ↔ _
    rw [Except.error.injEq, Except.error.injEq]
  | ok a => exact iff_of_false nofun nofun

theorem Suffixes.read_eq_pastTable_iff {sizes : Suffixes} {i : ℕ} :
    sizes.read i = .error .pastTable ↔ sizes.numsizes ≤ i := by
  unfold Suffixes.read Suffixes.numsizes
  rw [← List.getElem?_eq_none_iff]
  cases sizes.entries[i]? <;> simp

theorem Suffixes.read_ne_divisionByZero (sizes : Suffixes) (i : ℕ) : sizes.read i ≠ .error .divisionByZero := by
  unfold Suffixes.read
  split
  · exact nofun
  · exact nofun

variable {value divisor : ℚ} {precision : ℕ} {sizes : Suffixes}

/-- Only the read of the suffix may fail. -/
theorem getScaledSize_eq_error_iff {e : FormatError} :
    getScaledSize ft value divisor precision sizes .add = .error e ↔ sizes.read (scaledSize ft value divisor sizes).2 = .error e :=
  map_eq_error_iff

variable {printFixed : ℕ → ℚ → List Char}

/-- **The index of `getScaledSize`** is inside the table exactly for the values up to `divisor ^ n`. -/
theorem scaledSize_lt_iff (hdivisor : 1 < divisor) :
    (scaledSize (.exact printFixed) value divisor sizes).2 < sizes.numsizes ↔ value ≤ divisor ^ sizes.numsizes := by
  have hpos := sizes.numsizes_pos
  have hlast : sizes.numsizes - 1 + 1 = sizes.numsizes := Nat.sub_add_cancel hpos
  have hindex : (scaleDown id divisor (sizes.numsizes - 1) value).2 ≤ sizes.numsizes - 1 ↔
      value ≤ divisor ^ (sizes.numsizes - 1 + 1) := scaleDown_exact_le_iff hdivisor
  rw [hlast] at hindex
  rw [← hindex]
  exact Nat.lt_iff_le_pred hpos

/-- **The suffix is read past the table** exactly for the values above. -/
theorem getScaledSize_eq_pastTable_iff (hdivisor : 1 < divisor) :
    getScaledSize (.exact printFixed) value divisor precision sizes .add = .error .pastTable ↔
      divisor ^ sizes.numsizes < value := by
  rw [getScaledSize_eq_error_iff, Suffixes.read_eq_pastTable_iff, ← not_lt, scaledSize_lt_iff hdivisor, not_le]

/-- `getHashesToTarget` throws, and the formatting does not. -/
theorem formatDifficulty_eq_divisionByZero_iff {hash : H256} :
    formatDifficulty ft hash = .error .divisionByZero ↔ getHashesToTarget (FixedHash.hex hash) = none := by
  unfold formatDifficulty
  split
  · next hnone => exact iff_of_true rfl hnone
  · next hashes hsome =>
    rw [hsome, getFormattedHashes, getScaledSize_eq_error_iff]
    exact iff_of_false (Suffixes.read_ne_divisionByZero _ _) nofun

/-- With rounding, the values up to `divisor ^ n` stay inside. -/
theorem Rounding.scaledSize_lt (h : Rounding ft.toDouble divisor (sizes.numsizes - 1)) (hdivisor : 1 < divisor)
    (hvalue : value ≤ divisor ^ sizes.numsizes) : (scaledSize ft value divisor sizes).2 < sizes.numsizes := by
  have hpos := sizes.numsizes_pos
  rw [← Nat.sub_add_cancel hpos] at hvalue
  exact (Nat.lt_iff_le_pred hpos).2 (h.scaleDown_le hdivisor le_rfl hvalue)

/-- With rounding, the values from `divisor ^ (n + 1)` on do not. -/
theorem Rounding.le_scaledSize (h : Rounding ft.toDouble divisor sizes.numsizes) (hdivisor : 1 < divisor)
    (hvalue : divisor ^ (sizes.numsizes + 1) ≤ value) : sizes.numsizes ≤ (scaledSize ft value divisor sizes).2 := by
  have hpos := sizes.numsizes_pos
  have hlast : sizes.numsizes + 1 = sizes.numsizes - 1 + 2 := by omega
  rw [hlast] at hvalue
  have hpast := h.lt_scaleDown hdivisor (Nat.sub_lt hpos one_pos) hvalue
  exact Nat.le_of_pred_lt hpast

end Reading

section Difficulty

variable {ft : FloatText} {printFixed : ℕ → ℚ → List Char} {hash : H256}

/-- It takes at most `10 ^ 18` hashes to find one up to `hash`, in the sense of `getHashesToTarget`. -/
def WithinSuffixes (hash : H256) : Prop := 0xffff * 2 ^ 240 < (10 ^ 18 + 1) * FixedHash.arith hash

instance (hash : H256) : Decidable (WithinSuffixes hash) := inferInstanceAs (Decidable (_ < _))

/-- The difficulty of a hash is read past the table if its index is. -/
theorem formatDifficulty_eq_pastTable_iff_le (hhash : hash ≠ fun _ => 0) :
    formatDifficulty ft hash = .error .pastTable ↔
      6 ≤ (scaledSize ft (ft.toDouble (0xffff * 2 ^ 240 / FixedHash.arith hash : ℕ)) 1000 hashSuffixes).2 := by
  have harith : FixedHash.arith hash ≠ 0 := mt (FixedHash.arith_eq_zero_iff hash).1 hhash
  rw [formatDifficulty, getHashesToTarget_hex, if_neg harith]
  dsimp only
  rw [getFormattedHashes, getScaledSize_eq_error_iff, Suffixes.read_eq_pastTable_iff]
  rfl

theorem withinSuffixes_iff (hhash : hash ≠ fun _ => 0) :
    WithinSuffixes hash ↔ ((0xffff * 2 ^ 240 / FixedHash.arith hash : ℕ) : ℚ) ≤ 1000 ^ 6 := by
  have harith : 0 < FixedHash.arith hash := Nat.pos_of_ne_zero (mt (FixedHash.arith_eq_zero_iff hash).1 hhash)
  have hpower : (1000 : ℚ) ^ 6 = ((10 ^ 18 : ℕ) : ℚ) := by norm_num
  rw [hpower, Nat.cast_le, WithinSuffixes, ← Nat.lt_succ_iff, Nat.div_lt_iff_lt_mul harith]

/-- **The difficulty of a hash** is read past the table exactly if it is above `10 ^ 18`. -/
theorem formatDifficulty_eq_pastTable_iff (hhash : hash ≠ fun _ => 0) :
    formatDifficulty (.exact printFixed) hash = .error .pastTable ↔ ¬ WithinSuffixes hash := by
  rw [formatDifficulty_eq_pastTable_iff_le hhash, withinSuffixes_iff hhash, ← not_lt, not_iff_not]
  exact scaledSize_lt_iff (by norm_num)

/-- With the rounding of a `double` the difficulties up to `10 ^ 18` are read inside the table. -/
theorem Rounding.formatDifficulty_ne_pastTable (h : Rounding ft.toDouble 1000 7) (hhash : hash ≠ fun _ => 0)
    (hwithin : WithinSuffixes hash) : formatDifficulty ft hash ≠ .error .pastTable := by
  have hvalue : ft.toDouble (0xffff * 2 ^ 240 / FixedHash.arith hash : ℕ) ≤ 1000 ^ 6 := by
    rw [← h.power 6 (by omega)]
    exact h.mono ((withinSuffixes_iff hhash).1 hwithin)
  have hpowers : Rounding ft.toDouble 1000 5 := ⟨h.mono, fun k hk => h.power k (by omega)⟩
  rw [Ne, formatDifficulty_eq_pastTable_iff_le hhash, not_le]
  exact hpowers.scaledSize_lt (by norm_num : (1 : ℚ) < 1000) hvalue

/-- And those from `10 ^ 21` on are not. -/
theorem Rounding.formatDifficulty_eq_pastTable (h : Rounding ft.toDouble 1000 7) (hhash : hash ≠ fun _ => 0)
    (hfar : 10 ^ 21 * FixedHash.arith hash ≤ 0xffff * 2 ^ 240) : formatDifficulty ft hash = .error .pastTable := by
  have harith : 0 < FixedHash.arith hash := Nat.pos_of_ne_zero (mt (FixedHash.arith_eq_zero_iff hash).1 hhash)
  have hhashes : ((10 ^ 21 : ℕ) : ℚ) ≤ ((0xffff * 2 ^ 240 / FixedHash.arith hash : ℕ) : ℚ) :=
    Nat.cast_le.2 ((Nat.le_div_iff_mul_le harith).2 hfar)
  have hpower : (1000 : ℚ) ^ (hashSuffixes.numsizes + 1) = ((10 ^ 21 : ℕ) : ℚ) := by
    norm_num [hashSuffixes, Suffixes.of, Suffixes.numsizes]
  have hvalue : 1000 ^ (hashSuffixes.numsizes + 1) ≤ ft.toDouble (0xffff * 2 ^ 240 / FixedHash.arith hash : ℕ) := by
    rw [← h.power (hashSuffixes.numsizes + 1) (by decide), hpower]
    exact h.mono hhashes
  have hpowers : Rounding ft.toDouble 1000 hashSuffixes.numsizes := ⟨h.mono, fun k hk => h.power k (hk.trans (by decide))⟩
  rw [formatDifficulty_eq_pastTable_iff_le hhash]
  exact hpowers.le_scaledSize (by norm_num) hvalue

end Difficulty

end Common
end EtcMiner
