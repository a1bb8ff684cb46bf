/-
# The rounds of Keccak-f

A state is 25 lanes, lane `5 * y + x` at column `x` and row `y`.  A round is theta, rho
and pi, chi and iota; here it is over any type of lanes with the three operations it is
made of (`LaneOps`), each step in closed form.

Programs compute a round in place.  They add the column sums lane by lane (`thetaWith`),
walk the cycle of rho and pi by overwriting one lane with the next, rotated (`moves`),
and compute chi row by row with two lanes saved (`chiRow`).  Each of the three is the
step it stands for: `thetaWith_of_column`, `update_moves_eq_rhoPi`, `chiRows_eq_chi`.

The constants of the rounds are the bits of a shift register (`roundConstant`); programs keep them in
a table, which is as good if it agrees with them (`rounds_congr`).

A map of lanes that commutes with the operations commutes with the rounds
(`LaneOps.Hom.rounds`), so lanes held as pairs of words are as good as lanes.
-/

import EtcMiner.Lib.Loops
import Mathlib.Data.Fintype.Basic
import Mathlib.Logic.Function.Basic
import Mathlib.Tactic.FinCases

namespace EtcMiner
namespace Lib
namespace KeccakF

/-- The number of lanes, as an instance with a name for their indices to refer to. -/
instance neZero_twentyFive : NeZero 25 := ⟨by decide⟩

/-- The operations of a round: `chi a b c` is `a` xored with `c` where `b` is zero. -/
structure LaneOps (α : Type*) where
  xor : α → α → α
  chi : α → α → α → α
  rotl : ℕ → α → α

section Steps

variable {α : Type*} (o : LaneOps α)

/-- The sum of the column `x`, modulo 5. -/
def column (s : Fin 25 → α) (x : ℕ) : α :=
  o.xor (o.xor (o.xor (o.xor (s (Fin.ofNat 25 (x % 5))) (s (Fin.ofNat 25 (x % 5 + 5))))
    (s (Fin.ofNat 25 (x % 5 + 10)))) (s (Fin.ofNat 25 (x % 5 + 15)))) (s (Fin.ofNat 25 (x % 5 + 20)))

/-- What theta adds to the column `x`, for the column sums `t`. -/
def parity (t : ℕ → α) (x : ℕ) : α := o.xor (t ((x + 4) % 5)) (o.rotl 1 (t ((x + 1) % 5)))

/-- Theta. -/
def theta (s : Fin 25 → α) : Fin 25 → α := fun j => o.xor (s j) (parity o (column o s) (j % 5))

/-- How far rho rotates each lane. -/
def rhoOffsets : List ℕ :=
  [0, 1, 62, 28, 27, 36, 44, 6, 55, 20, 3, 10, 43, 25, 39, 41, 45, 15, 21, 8, 18, 2, 61, 56, 14]

/-- The lane that pi moves to `j`: the one at column `x + 3 * y` and row `x` for `j` at column `x`
and row `y`. -/
def piSource (j : Fin 25) : Fin 25 := Fin.ofNat 25 (5 * (j % 5) + (j % 5 + 3 * (j / 5)) % 5)

/-- Rho and pi; lane 0 stays as it is. -/
def rhoPi (s : Fin 25 → α) : Fin 25 → α := fun j =>
  if j = 0 then s 0 else o.rotl (rhoOffsets.getD (piSource j) 0) (s (piSource j))

/-- Chi. -/
def chi (s : Fin 25 → α) : Fin 25 → α := fun j =>
  o.chi (s j) (s (Fin.ofNat 25 (j / 5 * 5 + (j + 1) % 5))) (s (Fin.ofNat 25 (j / 5 * 5 + (j + 2) % 5)))

/-- Iota, with the round constant `rc`. -/
def iota (rc : α) (s : Fin 25 → α) : Fin 25 → α := Function.update s 0 (o.xor (s 0) rc)

/-- A round. -/
def round (rc : α) (s : Fin 25 → α) : Fin 25 → α := iota o rc (chi o (rhoPi o (theta o s)))

/-- The first `n` rounds. -/
def rounds (rc : ℕ → α) (n : ℕ) (s : Fin 25 → α) : Fin 25 → α := forLoop (fun i => round o (rc i)) n s

end Steps

/-- The shift register of the round constants, with the polynomial `x^8 + x^6 + x^5 + x^4 + 1`. -/
def shiftRegister : ℕ → ℕ
  | 0 => 1
  | t + 1 =>
    let next := 2 * shiftRegister t
    if 256 ≤ next then next ^^^ 0x171 else next

/-- The constant of round `i` on lanes of `2 ^ l` bits: bit `2 ^ j - 1` is the output of the shift
register after `j + 7 * i` steps. -/
def roundConstant (l i : ℕ) : ℕ :=
  ((List.range (l + 1)).map fun j => shiftRegister (j + 7 * i) % 2 * 2 ^ (2 ^ j - 1)).sum

/-- **The rounds of two tables of constants** that agree are the same. -/
theorem rounds_congr {α : Type*} (o : LaneOps α) {rc rc' : ℕ → α} {n : ℕ} (h : ∀ i < n, rc i = rc' i)
    (s : Fin 25 → α) : rounds o rc n s = rounds o rc' n s := by
  refine forLoop_inv (fun i t => t = rounds o rc' i s) rfl ?_
  rintro i hi t rfl
  rw [h i hi]
  rfl

section InPlace

variable {α ρ : Type*} (o : LaneOps α)

/-- `s[i] ^= u` for the lanes `is`. -/
def xorInto (u : α) (is : List (Fin 25)) (s : Fin 25 → α) : Fin 25 → α :=
  is.foldl (fun s i => Function.update s i (o.xor (s i) u)) s

/-- Theta in place, from the column sums `t`. -/
def thetaWith (t : ℕ → α) (s : Fin 25 → α) : Fin 25 → α :=
  let s := xorInto o (o.xor (t 4) (o.rotl 1 (t 1))) [0, 5, 10, 15, 20] s
  let s := xorInto o (o.xor (t 0) (o.rotl 1 (t 2))) [1, 6, 11, 16, 21] s
  let s := xorInto o (o.xor (t 1) (o.rotl 1 (t 3))) [2, 7, 12, 17, 22] s
  let s := xorInto o (o.xor (t 2) (o.rotl 1 (t 4))) [3, 8, 13, 18, 23] s
  xorInto o (o.xor (t 3) (o.rotl 1 (t 0))) [4, 9, 14, 19, 24] s

theorem thetaWith_of_column {t : ℕ → α} {s : Fin 25 → α} (ht : ∀ x < 5, t x = column o s x) :
    thetaWith o t s = theta o s := by
  unfold thetaWith
  rw [ht 0 (by decide), ht 1 (by decide), ht 2 (by decide), ht 3 (by decide), ht 4 (by decide)]
  funext j
  fin_cases j <;> rfl

/-- The assignment of one lane, rotated, to another. -/
structure Move (ρ : Type*) where
  dst : Fin 25
  src : Fin 25
  rot : ρ

/-- Assignments in order; `rot` gives the rotations their meaning. -/
def moves (rot : ρ → α → α) (ms : List (Move ρ)) (s : Fin 25 → α) : Fin 25 → α :=
  ms.foldl (fun s m => Function.update s m.dst (rot m.rot (s m.src))) s

/-- Two meanings that agree on the rotations used. -/
theorem moves_map {σ : Type*} {rot : ρ → α → α} {rot' : σ → α → α} (f : ρ → σ) {ms : List (Move ρ)}
    (h : ∀ m ∈ ms, rot m.rot = rot' (f m.rot)) (s : Fin 25 → α) :
    moves rot ms s = moves rot' (ms.map fun m => ⟨m.dst, m.src, f m.rot⟩) s := by
  induction ms generalizing s with
  | nil => rfl
  | cons m ms ih =>
    have hhead : rot m.rot = rot' (f m.rot) := h m List.mem_cons_self
    have hstep : moves rot (m :: ms) s = moves rot ms (Function.update s m.dst (rot' (f m.rot) (s m.src))) := by
      rw [← hhead]
      rfl
    rw [hstep, ih (fun m' hm' => h m' (List.mem_cons_of_mem _ hm'))]
    rfl

/-- The cycle of rho and pi, from lane 1 back to lane 10, where lane 1 goes. -/
def rhoPiMoves : List (Move ℕ) :=
  [⟨1, 6, 44⟩, ⟨6, 9, 20⟩, ⟨9, 22, 61⟩, ⟨22, 14, 39⟩, ⟨14, 20, 18⟩, ⟨20, 2, 62⟩, ⟨2, 12, 43⟩, ⟨12, 13, 25⟩,
    ⟨13, 19, 8⟩, ⟨19, 23, 56⟩, ⟨23, 15, 41⟩, ⟨15, 4, 27⟩, ⟨4, 24, 14⟩, ⟨24, 21, 2⟩, ⟨21, 8, 55⟩, ⟨8, 16, 45⟩,
    ⟨16, 5, 36⟩, ⟨5, 3, 28⟩, ⟨3, 18, 21⟩, ⟨18, 17, 15⟩, ⟨17, 11, 10⟩, ⟨11, 7, 6⟩, ⟨7, 10, 3⟩]

/-- **The chain of overwrites is rho and pi.**  Lane 1 is saved before, so what it holds does not
matter. -/
theorem update_moves_eq_rhoPi (s : Fin 25 → α) (v : α) :
    Function.update (moves o.rotl rhoPiMoves (Function.update s 1 v)) 10 (o.rotl 1 (s 1)) = rhoPi o s := by
  funext j
  fin_cases j <;> rfl

/-- Chi in place on the row that starts at lane `k`, its first two lanes saved. -/
def chiRow (k : Fin 25) (s : Fin 25 → α) : Fin 25 → α :=
  let u := s k
  let v := s (k + 1)
  let s := Function.update s k (o.chi (s k) (s (k + 1)) (s (k + 2)))
  let s := Function.update s (k + 1) (o.chi (s (k + 1)) (s (k + 2)) (s (k + 3)))
  let s := Function.update s (k + 2) (o.chi (s (k + 2)) (s (k + 3)) (s (k + 4)))
  let s := Function.update s (k + 3) (o.chi (s (k + 3)) (s (k + 4)) u)
  Function.update s (k + 4) (o.chi (s (k + 4)) u v)

/-- Chi in place. -/
def chiRows (s : Fin 25 → α) : Fin 25 → α :=
  chiRow o 20 (chiRow o 15 (chiRow o 10 (chiRow o 5 (chiRow o 0 s))))

theorem chiRows_eq_chi (s : Fin 25 → α) : chiRows o s = chi o s := by
  funext j
  fin_cases j <;> rfl

end InPlace

section Hom

variable {α β : Type*} {o : LaneOps α} {o' : LaneOps β} {f : α → β}

/-- `f` commutes with the operations, for rotations by less than the 64 bits of a lane. -/
structure LaneOps.Hom (o : LaneOps α) (o' : LaneOps β) (f : α → β) : Prop where
  xor : ∀ a b, f (o.xor a b) = o'.xor (f a) (f b)
  chi : ∀ a b c, f (o.chi a b c) = o'.chi (f a) (f b) (f c)
  rotl : ∀ n < 64, ∀ a, f (o.rotl n a) = o'.rotl n (f a)

theorem rhoOffset_lt : ∀ j : Fin 25, rhoOffsets.getD (piSource j) 0 < 64 := by decide

namespace LaneOps.Hom

theorem column (h : Hom o o' f) (s : Fin 25 → α) (x : ℕ) :
    f (column o s x) = KeccakF.column o' (fun j => f (s j)) x := by
  simp only [KeccakF.column, h.xor]

theorem theta (h : Hom o o' f) (s : Fin 25 → α) : (fun j => f (theta o s j)) = KeccakF.theta o' fun j => f (s j) := by
  funext j
  simp only [KeccakF.theta, parity, h.xor, h.rotl 1 (by decide), h.column]

theorem rhoPi (h : Hom o o' f) (s : Fin 25 → α) : (fun j => f (rhoPi o s j)) = KeccakF.rhoPi o' fun j => f (s j) := by
  funext j
  simp only [KeccakF.rhoPi, apply_ite f, h.rotl _ (rhoOffset_lt j)]

theorem chi_lanes (h : Hom o o' f) (s : Fin 25 → α) : (fun j => f (KeccakF.chi o s j)) = KeccakF.chi o' fun j => f (s j) := by
  funext j
  simp only [KeccakF.chi, h.chi]

theorem iota (h : Hom o o' f) (rc : α) (s : Fin 25 → α) :
    (fun j => f (iota o rc s j)) = KeccakF.iota o' (f rc) fun j => f (s j) := by
  funext j
  simp only [KeccakF.iota, Function.update_apply, apply_ite f, h.xor]

theorem round (h : Hom o o' f) (rc : α) (s : Fin 25 → α) :
    (fun j => f (round o rc s j)) = KeccakF.round o' (f rc) fun j => f (s j) := by
  calc (fun j => f (KeccakF.round o rc s j))
      = KeccakF.iota o' (f rc) fun j => f (KeccakF.chi o (KeccakF.rhoPi o (KeccakF.theta o s)) j) := h.iota rc _
    _ = KeccakF.round o' (f rc) fun j => f (s j) := by rw [h.chi_lanes, h.rhoPi, h.theta]; rfl

/-- **Rounds in another representation of the lanes.** -/
theorem rounds (h : Hom o o' f) (rc : ℕ → α) (n : ℕ) (s : Fin 25 → α) :
    (fun j => f (rounds o rc n s j)) = KeccakF.rounds o' (fun i => f (rc i)) n fun j => f (s j) := by
  induction n with
  | zero => rfl
  | succ n ih =>
    change (fun j => f (KeccakF.round o (rc n) (KeccakF.rounds o rc n s) j)) = KeccakF.round o' (f (rc n)) _
    rw [h.round, ih]
    rfl

end LaneOps.Hom

end Hom

end KeccakF
end Lib
end EtcMiner
