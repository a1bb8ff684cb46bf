/-
# A loop that strides through words

`for (base = 0; base <= limit; base += step)` with unsigned words of `w` bits.  In round `j` the
variable is `j * step` modulo `2 ^ w` (`strideAt`), and the loop ends in the first round in which that
exceeds `limit` (`exists_strideLoop_iff`).

With `limit = work - step` there are two cases.  If `step ≤ work` nothing wraps: the bases are the
multiples of `step` below `work / step * step`, so the strides tile the range up to there and less
than a stride is left (`strideLoop_of_le`), which whole blocks for the rest cover, rounded up
(`restBlocks_range`).  If `work < step` the difference wraps and the loop goes
around; the values it meets are the multiples of `gcd step (2 ^ w)`, and it ends only if one of them is
past the limit (`exists_strideAt_gt_iff`).
-/

import Mathlib.Data.Int.GCD
import Mathlib.Data.Nat.Find

namespace EtcMiner
namespace Lib

variable {w : ℕ}

/-- `for (; base <= limit; base += step)`: the bases of the rounds and the last value of `base`; `none`
if `fuel` rounds do not end it. -/
def strideLoop (limit step : BitVec w) : ℕ → BitVec w → Option (List (BitVec w) × BitVec w)
  | 0, _ => none
  | fuel + 1, base =>
    if base ≤ limit then (strideLoop limit step fuel (base + step)).map fun r => (base :: r.1, r.2)
    else some ([], base)

/-- `base` in round `j`. -/
def strideAt (step base : BitVec w) (j : ℕ) : BitVec w := base + BitVec.ofNat w j * step

@[simp] theorem strideAt_zero (step base : BitVec w) : strideAt step base 0 = base := by simp [strideAt]

theorem strideAt_succ (step base : BitVec w) (j : ℕ) : strideAt step (base + step) j = strideAt step base (j + 1) := by
  simp only [strideAt, BitVec.ofNat_add, BitVec.add_mul, BitVec.add_assoc]
  congr 1
  rw [BitVec.add_comm]
  congr 1
  exact (BitVec.one_mul step).symm

theorem toNat_strideAt (step : BitVec w) (j : ℕ) : (strideAt step 0 j).toNat = j * step.toNat % 2 ^ w := by
  simp [strideAt, BitVec.toNat_mul]

/-- What the loop has done when it has ended before round `k`. -/
def strides (step base : BitVec w) (k : ℕ) : List (BitVec w) × BitVec w :=
  ((List.range k).map (strideAt step base), strideAt step base k)

theorem strides_succ (step base : BitVec w) (k : ℕ) :
    strides step base (k + 1) = (base :: (strides step (base + step) k).1, (strides step (base + step) k).2) := by
  simp only [strides, List.range_succ_eq_map, List.map_cons, List.map_map, strideAt_zero, Prod.mk.injEq,
    List.cons.injEq, true_and]
  refine ⟨List.map_congr_left fun j _ => ?_, ?_⟩
  · exact (strideAt_succ step base j).symm
  · exact (strideAt_succ step base k).symm

/-- **The loop ends in the first round past the limit**, and not otherwise. -/
theorem exists_strideLoop_iff (limit step base : BitVec w) (r : List (BitVec w) × BitVec w) :
    (∃ fuel, strideLoop limit step fuel base = some r) ↔
      ∃ k, (∀ j < k, strideAt step base j ≤ limit) ∧ limit < strideAt step base k ∧ r = strides step base k := by
  constructor
  · rintro ⟨fuel, h⟩
    induction fuel generalizing base r with
    | zero => exact absurd h (by simp [strideLoop])
    | succ fuel ih =>
      unfold strideLoop at h
      by_cases hbase : base ≤ limit
      · rw [if_pos hbase, Option.map_eq_some_iff] at h
        obtain ⟨r', hr', rfl⟩ := h
        obtain ⟨k, hgo, hstop, rfl⟩ := ih (base + step) r' hr'
        rw [strideAt_succ] at hstop
        refine ⟨k + 1, ?_, hstop, (strides_succ step base k).symm⟩
        rintro (_ | j) hj
        · rwa [strideAt_zero]
        · rw [← strideAt_succ]
          exact hgo j (by omega)
      · rw [if_neg hbase] at h
        refine ⟨0, fun j hj => absurd hj (Nat.not_lt_zero j), ?_, (Option.some.inj h).symm.trans ?_⟩
        · rw [strideAt_zero]
          exact BitVec.not_le.1 hbase
        · simp [strides]
  · rintro ⟨k, hgo, hstop, rfl⟩
    induction k generalizing base with
    | zero =>
      refine ⟨1, ?_⟩
      rw [strideAt_zero] at hstop
      rw [strideLoop, if_neg (BitVec.not_le.2 hstop)]
      simp [strides]
    | succ k ih =>
      have hbase : base ≤ limit := by
        have h0 := hgo 0 (Nat.succ_pos k)
        rwa [strideAt_zero] at h0
      obtain ⟨fuel, hfuel⟩ := ih (base + step)
        (fun j hj => by rw [strideAt_succ]; exact hgo (j + 1) (by omega)) (by rwa [strideAt_succ])
      refine ⟨fuel + 1, ?_⟩
      rw [strideLoop, if_pos hbase, hfuel, strides_succ]
      rfl

/-- It ends if any round is past the limit. -/
theorem exists_strideLoop_of_gt {limit step base : BitVec w} (h : ∃ k, limit < strideAt step base k) :
    ∃ k, (∀ j < k, strideAt step base j ≤ limit) ∧ limit < strideAt step base k :=
  ⟨Nat.find h, fun _ hj => BitVec.not_lt.1 (Nat.find_min h hj), Nat.find_spec h⟩

/-- **The multiples of `a` modulo `m`** reach up to `m - gcd a m`. -/
theorem exists_lt_mul_mod_iff {a m limit : ℕ} (hm : 0 < m) :
    (∃ k, limit < k * a % m) ↔ limit < m - Nat.gcd a m := by
  have hgm : Nat.gcd a m ∣ m := Nat.gcd_dvd_right a m
  have hgpos : 0 < Nat.gcd a m := Nat.gcd_pos_of_pos_right a hm
  constructor
  · rintro ⟨k, hk⟩
    have hdvd : Nat.gcd a m ∣ m - k * a % m :=
      Nat.dvd_sub hgm ((Nat.dvd_mod_iff hgm).2 ((Nat.gcd_dvd_left a m).mul_left k))
    have hlt : k * a % m < m := Nat.mod_lt _ hm
    have hle := Nat.le_of_dvd (by omega) hdvd
    omega
  · intro h
    obtain ⟨k, -, hk⟩ := Nat.exists_mul_mod_eq_gcd (show Nat.gcd a m < m by omega)
    obtain ⟨c, hc⟩ := hgm
    -- One less than `m / gcd` times the multiple that is the gcd.
    refine ⟨k * (c - 1), ?_⟩
    have hmul : k * (c - 1) * a % m = m - Nat.gcd a m := by
      have hsub : Nat.gcd a m * (c - 1) = m - Nat.gcd a m := by
        rw [Nat.mul_sub_one, ← hc]
      rw [Nat.mul_right_comm, Nat.mul_comm k a, ← Nat.mod_mul_mod, hk, hsub]
      exact Nat.mod_eq_of_lt (by omega)
    rw [hmul]
    exact h

/-- **A loop with a stride longer than the work** ends if it meets a value past its limit. -/
theorem exists_strideAt_gt_iff (limit step : BitVec w) :
    (∃ k, limit < strideAt step 0 k) ↔ limit.toNat < 2 ^ w - Nat.gcd step.toNat (2 ^ w) := by
  rw [← exists_lt_mul_mod_iff (Nat.two_pow_pos w)]
  simp only [BitVec.lt_def, toNat_strideAt]

section Fits

variable {work step : BitVec w}

/-- As long as the strides stay within the work, nothing wraps. -/
theorem toNat_strideAt_of_le {j : ℕ} (hj : j ≤ work.toNat / step.toNat) : (strideAt step 0 j).toNat = j * step.toNat := by
  have hmul := Nat.mul_le_mul_right step.toNat hj
  have hfloor : work.toNat / step.toNat * step.toNat ≤ work.toNat := Nat.div_mul_le_self _ _
  have hwork := work.isLt
  rw [toNat_strideAt, Nat.mod_eq_of_lt (by omega)]

/-- Whole strides lie within the work. -/
theorem add_le_of_mem_strides {base : BitVec w} (h : base ∈ (strides step 0 (work.toNat / step.toNat)).1) :
    base.toNat + step.toNat ≤ work.toNat := by
  obtain ⟨j, hj, rfl⟩ := List.mem_map.1 h
  have hj := List.mem_range.1 hj
  have hmul := Nat.mul_le_mul_right step.toNat (Nat.succ_le_of_lt hj)
  have hfloor : work.toNat / step.toNat * step.toNat ≤ work.toNat := Nat.div_mul_le_self _ _
  rw [Nat.succ_mul] at hmul
  rw [toNat_strideAt_of_le hj.le]
  omega

/-- They leave no gap. -/
theorem exists_mem_strides (hpos : 0 < step.toNat) {i : ℕ} (hi : i < work.toNat / step.toNat * step.toNat) :
    ∃ base ∈ (strides step 0 (work.toNat / step.toNat)).1, base.toNat ≤ i ∧ i < base.toNat + step.toNat := by
  have hj : i / step.toNat < work.toNat / step.toNat := (Nat.div_lt_iff_lt_mul hpos).2 hi
  have hdiv := Nat.div_add_mod' i step.toNat
  have hmod := Nat.mod_lt i hpos
  refine ⟨strideAt step 0 (i / step.toNat), List.mem_map.2 ⟨_, List.mem_range.2 hj, rfl⟩, ?_⟩
  rw [toNat_strideAt_of_le hj.le]
  omega

/-- **A loop with a stride not longer than the work** makes `work / step` rounds. -/
theorem strideLoop_of_le (hpos : 0 < step.toNat) (hle : step.toNat ≤ work.toNat) (r : List (BitVec w) × BitVec w) :
    (∃ fuel, strideLoop (work - step) step fuel 0 = some r) ↔ r = strides step 0 (work.toNat / step.toNat) := by
  have hlimit : (work - step).toNat = work.toNat - step.toNat := BitVec.toNat_sub_of_le (BitVec.le_def.2 hle)
  have hceil : work.toNat < work.toNat / step.toNat * step.toNat + step.toNat := Nat.lt_div_mul_add hpos
  have hgo : ∀ j < work.toNat / step.toNat, strideAt step 0 j ≤ work - step := by
    intro j hj
    have hwithin := add_le_of_mem_strides (List.mem_map.2 ⟨j, List.mem_range.2 hj, rfl⟩)
    rw [BitVec.le_def, hlimit]
    omega
  have hstop : work - step < strideAt step 0 (work.toNat / step.toNat) := by
    rw [BitVec.lt_def, toNat_strideAt_of_le le_rfl, hlimit]
    omega
  rw [exists_strideLoop_iff]
  constructor
  · rintro ⟨k, hgo', hstop', rfl⟩
    -- The first round past the limit is the same one.
    rcases Nat.lt_trichotomy k (work.toNat / step.toNat) with hlt | rfl | hgt
    · exact absurd (hgo k hlt) (BitVec.not_le.2 hstop')
    · rfl
    · exact absurd (hgo' _ hgt) (BitVec.not_le.2 hstop)
  · rintro rfl
    exact ⟨_, hgo, hstop, rfl⟩

end Fits

section Rest

/-- The blocks for the rest, rounded up in words, when adding a block does not wrap. -/
theorem toNat_restBlocks {work base block : BitVec w} (hle : base.toNat ≤ work.toNat) (hone : 1 ≤ block.toNat)
    (hfits : work.toNat - base.toNat + block.toNat < 2 ^ w) :
    ((work - base + block - 1) / block).toNat = (work.toNat - base.toNat + block.toNat - 1) / block.toNat := by
  have hrest : (work - base).toNat = work.toNat - base.toNat := BitVec.toNat_sub_of_le (BitVec.le_def.2 hle)
  have hsum : (work - base + block).toNat = work.toNat - base.toNat + block.toNat := by
    rw [BitVec.toNat_add, hrest, Nat.mod_eq_of_lt hfits]
  have hlt : 1 < 2 ^ w := by omega
  have hone' : (1 : BitVec w).toNat = 1 := Nat.mod_eq_of_lt hlt
  rw [BitVec.toNat_udiv, BitVec.toNat_sub_of_le (BitVec.le_def.2 (by omega)), hsum, hone']

/-- **Whole blocks for the rest** reach the end of the work without passing `m`, a multiple of a block, and
end with the work exactly if it is one too. -/
theorem restBlocks_range {block last work m : ℕ} (hpos : 0 < block) (hm : block ∣ m) (hlast : block ∣ last)
    (hrest : last < work) (hwork : work < m) :
    last + (work - last + block - 1) / block * block ≤ m ∧
      work ≤ last + (work - last + block - 1) / block * block ∧
      (last + (work - last + block - 1) / block * block = work ↔ block ∣ work) := by
  have hdiv := Nat.div_add_mod' (work - last + block - 1) block
  have hmod := Nat.mod_lt (work - last + block - 1) hpos
  have hend : block ∣ last + (work - last + block - 1) / block * block := Nat.dvd_add hlast (Nat.dvd_mul_left _ _)
  generalize (work - last + block - 1) / block * block = rest at hdiv hend ⊢
  -- Two multiples of a block less than a block apart are equal.
  have hapart : ∀ a b, block ∣ a → block ∣ b → b ≤ a → a < b + block → a = b := by
    intro a b ha hb hle hlt
    have hsub := Nat.eq_zero_of_dvd_of_lt (Nat.dvd_sub ha hb) (by omega)
    omega
  refine ⟨?_, by omega, fun h => h ▸ hend, fun h => hapart _ _ hend h (by omega) (by omega)⟩
  by_contra hpast
  have := hapart (last + rest) m hend hm (by omega) (by omega)
  omega

end Rest

end Lib
end EtcMiner
