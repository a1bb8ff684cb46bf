/-
# Arcs of the cycle of words

The words of `w` bits form a cycle of `2 ^ w` numbers; `arc s len` is the set of the
`len` words from `s` on, wrapping around.  Consecutive arcs of one length are
disjoint as long as they do not go all the way round (`disjoint_arc`), and the
words of an arc of `2 ^ m` that starts at a multiple of `2 ^ m` are those that share
their high bits with its start (`mem_arc_iff_div_eq`).
-/

import Mathlib.Data.BitVec
import Mathlib.Data.Set.Disjoint
import Mathlib.Order.CompletePartialOrder
import Mathlib.Tactic.Linarith
import Mathlib.Tactic.Ring

namespace EtcMiner
namespace Lib

variable {w : ℕ}

/-- The `len` words from `s` on. -/
def arc (s : BitVec w) (len : ℕ) : Set (BitVec w) := {x | (x - s).toNat < len}

theorem mem_arc {s x : BitVec w} {len : ℕ} : x ∈ arc s len ↔ (x - s).toNat < len := Iff.rfl

/-- An arc inside another one: `len` words from `a` on, `a` lying `d` words after
`s`. -/
theorem arc_add_subset {s : BitVec w} {d len len' : ℕ} (h : d + len ≤ len') :
    arc (s + BitVec.ofNat w d) len ⊆ arc s len' := by
  intro x hx
  rw [mem_arc] at hx ⊢
  have hsplit : x - s = (x - (s + BitVec.ofNat w d)) + BitVec.ofNat w d := by ring
  rw [hsplit, BitVec.toNat_add, BitVec.toNat_ofNat]
  calc ((x - (s + BitVec.ofNat w d)).toNat + d % 2 ^ w) % 2 ^ w
      ≤ (x - (s + BitVec.ofNat w d)).toNat + d % 2 ^ w := Nat.mod_le _ _
    _ ≤ (x - (s + BitVec.ofNat w d)).toNat + d := Nat.add_le_add_left (Nat.mod_le _ _) _
    _ < len' := by omega

/-- **Arcs that follow one another are disjoint** as long as the later one ends
before the earlier one comes round again. -/
theorem disjoint_arc {s : BitVec w} {a b len : ℕ} (hab : a + len ≤ b) (hb : b + len ≤ 2 ^ w + a) :
    Disjoint (arc (s + BitVec.ofNat w a) len) (arc (s + BitVec.ofNat w b) len) := by
  rw [Set.disjoint_left]
  intro x hxa hxb
  rw [mem_arc] at hxa hxb
  set p := (x - (s + BitVec.ofNat w a)).toNat with hp
  set q := (x - (s + BitVec.ofNat w b)).toNat with hq
  have hsame : BitVec.ofNat w (a + p) = BitVec.ofNat w (b + q) := by
    rw [BitVec.ofNat_add, BitVec.ofNat_add, hp, hq, BitVec.ofNat_toNat, BitVec.ofNat_toNat,
      BitVec.setWidth_eq, BitVec.setWidth_eq]
    ring
  -- the two offsets agree modulo `2 ^ w` and lie less than `2 ^ w` apart
  have hmod : (b + q) % 2 ^ w = (a + p) % 2 ^ w := by
    have htoNat := congrArg BitVec.toNat hsame
    rw [BitVec.toNat_ofNat, BitVec.toNat_ofNat] at htoNat
    exact htoNat.symm
  have hdiff := Nat.sub_mod_eq_zero_of_mod_eq hmod
  rw [Nat.mod_eq_of_lt (by omega)] at hdiff
  omega

/-- **The arc of an aligned start** is given by the high bits. -/
theorem mem_arc_iff_div_eq {s x : BitVec w} {m : ℕ} (hm : m ≤ w) (hs : s.toNat % 2 ^ m = 0) :
    x ∈ arc s (2 ^ m) ↔ x.toNat / 2 ^ m = s.toNat / 2 ^ m := by
  have hpow : 2 ^ w = 2 ^ m * 2 ^ (w - m) := by rw [← pow_add, Nat.add_sub_cancel' hm]
  have hpos : 0 < 2 ^ m := Nat.two_pow_pos m
  have hx := x.isLt
  have hs' := s.isLt
  have hsdiv := Nat.div_add_mod s.toNat (2 ^ m)
  have hxdiv := Nat.div_add_mod x.toNat (2 ^ m)
  have hxmod := Nat.mod_lt x.toNat hpos
  rw [mem_arc, BitVec.toNat_sub]
  rcases Nat.lt_or_ge x.toNat s.toNat with hlt | hge
  · have hne : x.toNat / 2 ^ m < s.toNat / 2 ^ m := by
      rw [Nat.div_lt_iff_lt_mul hpos, Nat.mul_comm]
      omega
    have hgap : 2 ^ m ≤ 2 ^ w - s.toNat := by
      have hdvd : 2 ^ m ∣ 2 ^ w - s.toNat :=
        Nat.dvd_sub (Dvd.intro _ hpow.symm) (Nat.dvd_of_mod_eq_zero hs)
      exact Nat.le_of_dvd (by omega) hdvd
    rw [Nat.mod_eq_of_lt (by omega)]
    omega
  · rw [show 2 ^ w - s.toNat + x.toNat = x.toNat - s.toNat + 2 ^ w by omega, Nat.add_mod_right,
      Nat.mod_eq_of_lt (by omega)]
    constructor
    · intro hclose
      refine Nat.div_eq_of_lt_le ?_ ?_
      · rw [Nat.mul_comm]
        omega
      · rw [Nat.mul_comm, Nat.mul_succ]
        omega
    · intro heq
      rw [heq] at hxdiv
      omega

end Lib
end EtcMiner
