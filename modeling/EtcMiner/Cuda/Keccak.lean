/-
# The Keccak of the CUDA kernels

`keccak_f1600_init`, `keccak_f1600_final` and `SHA3_512` in `libcuda/keccak.cuh`, with the helpers of
`libcuda/cuda_helper.h` as they are written without inline assembly.  The three share the text of a
round (`keccakRound`), which sums the columns, adds the sums, walks the cycle of rho and pi and
computes chi and iota in place.  What they specialise is the first round, where the column sums leave
out the lanes known to be zero, and the last one, where only the lanes that are read afterwards are
computed.

A round is a round of Keccak-f over the kernels' own operations (`keccakRound_eq`), and so are the
shortened ones, on the lanes they compute (`lastRound_lane`, `lastLane_eq`) or on the states they
start from (`initSums_eq`, `finalSums_eq`).  On lanes read as words of 64 bits those operations are
the ones of the CPU code (`cudaOps_hom`), so the three functions hash as it does
(`cuda_keccak_agrees`).  The model of `compute_hash` takes the permutation as a parameter; it may be
this one (`keccakF1600Init_lane`, `keccakF1600Final_eq_of`).
-/

import EtcMiner.Cuda.ComputeHash
import EtcMiner.Gpu.Lanes
import Mathlib.Data.List.GetD
import Mathlib.Tactic.IntervalCases

namespace EtcMiner
namespace Cuda
namespace Keccak

open Lib Ethash Gpu

/-- `keccak_round_constants`. -/
def keccakRoundConstants : List Uint2 :=
  [⟨0x00000001, 0x00000000⟩, ⟨0x00008082, 0x00000000⟩, ⟨0x0000808a, 0x80000000⟩, ⟨0x80008000, 0x80000000⟩,
    ⟨0x0000808b, 0x00000000⟩, ⟨0x80000001, 0x00000000⟩, ⟨0x80008081, 0x80000000⟩, ⟨0x00008009, 0x80000000⟩,
    ⟨0x0000008a, 0x00000000⟩, ⟨0x00000088, 0x00000000⟩, ⟨0x80008009, 0x00000000⟩, ⟨0x8000000a, 0x00000000⟩,
    ⟨0x8000808b, 0x00000000⟩, ⟨0x0000008b, 0x80000000⟩, ⟨0x00008089, 0x80000000⟩, ⟨0x00008003, 0x80000000⟩,
    ⟨0x00008002, 0x80000000⟩, ⟨0x00000080, 0x80000000⟩, ⟨0x0000800a, 0x00000000⟩, ⟨0x8000000a, 0x80000000⟩,
    ⟨0x80008081, 0x80000000⟩, ⟨0x00008080, 0x80000000⟩, ⟨0x80000001, 0x00000000⟩, ⟨0x80008008, 0x80000000⟩]

/-- `keccak_round_constants[i]`. -/
def roundConst (i : ℕ) : Uint2 := keccakRoundConstants.getD i ⟨0, 0⟩

/-- `xor5`. -/
def xor5 (a b c d e : Uint2) : Uint2 := a ^^^ b ^^^ c ^^^ d ^^^ e

/-- `xor3`. -/
def xor3 (a b c : Uint2) : Uint2 := a ^^^ b ^^^ c

/-- `chi`. -/
def chi (a b c : Uint2) : Uint2 := a ^^^ (~~~b &&& c)

/-- `ROL2`. -/
def rol2 (v : Uint2) (n : ℕ) : Uint2 :=
  if n ≤ 32 then ⟨v.x <<< n ||| v.y >>> (32 - n), v.y <<< n ||| v.x >>> (32 - n)⟩
  else ⟨v.y <<< (n - 32) ||| v.x >>> (64 - n), v.x <<< (n - 32) ||| v.y >>> (64 - n)⟩

/-- `ROL8`. -/
def rol8 (a : Uint2) : Uint2 := ⟨bytePerm a.y a.x 0x6543, bytePerm a.y a.x 0x2107⟩

/-- `ROR8`. -/
def ror8 (a : Uint2) : Uint2 := ⟨bytePerm a.y a.x 0x0765, bytePerm a.y a.x 0x4321⟩

/-- The operations of the kernels. -/
def cudaOps : KeccakF.LaneOps Uint2 where
  xor a b := a ^^^ b
  chi := chi
  rotl n v := rol2 v n

/-- A rotation in the chain of rho and pi. -/
inductive Rot where
  | rol2 (n : ℕ)
  | rol8
  | ror8

/-- `ROL2(v, n)`, `ROL8(v)` or `ROR8(v)`. -/
def Rot.apply : Rot → Uint2 → Uint2
  | .rol2 n, v => Keccak.rol2 v n
  | .rol8, v => Keccak.rol8 v
  | .ror8, v => Keccak.ror8 v

/-- `t`: the sums of the columns. -/
def columnSums (s : Fin 25 → Uint2) : ℕ → Uint2
  | 0 => xor5 (s 0) (s 5) (s 10) (s 15) (s 20)
  | 1 => xor5 (s 1) (s 6) (s 11) (s 16) (s 21)
  | 2 => xor5 (s 2) (s 7) (s 12) (s 17) (s 22)
  | 3 => xor5 (s 3) (s 8) (s 13) (s 18) (s 23)
  | _ => xor5 (s 4) (s 9) (s 14) (s 19) (s 24)

/-- `t` in the first round of `keccak_f1600_init`. -/
def initSums (s : Fin 25 → Uint2) : ℕ → Uint2
  | 0 => ⟨(s 0).x ^^^ (s 5).x, (s 0).y⟩
  | 1 => s 1
  | 2 => s 2
  | 3 => ⟨(s 3).x, (s 3).y ^^^ (s 8).y⟩
  | _ => s 4

/-- `t` in the first round of `keccak_f1600_final`. -/
def finalSums (s : Fin 25 → Uint2) : ℕ → Uint2
  | 0 => xor3 (s 0) (s 5) (s 10)
  | 1 => xor3 (s 1) (s 6) (s 11) ^^^ s 16
  | 2 => xor3 (s 2) (s 7) (s 12)
  | 3 => s 3 ^^^ s 8
  | _ => s 4 ^^^ s 9

/-- The chain of rho and pi in `keccak_f1600_init` and `keccak_f1600_final`. -/
def byteMoves : List (KeccakF.Move Rot) :=
  [⟨1, 6, .rol2 44⟩, ⟨6, 9, .rol2 20⟩, ⟨9, 22, .rol2 61⟩, ⟨22, 14, .rol2 39⟩, ⟨14, 20, .rol2 18⟩, ⟨20, 2, .rol2 62⟩,
    ⟨2, 12, .rol2 43⟩, ⟨12, 13, .rol2 25⟩, ⟨13, 19, .rol8⟩, ⟨19, 23, .ror8⟩, ⟨23, 15, .rol2 41⟩, ⟨15, 4, .rol2 27⟩,
    ⟨4, 24, .rol2 14⟩, ⟨24, 21, .rol2 2⟩, ⟨21, 8, .rol2 55⟩, ⟨8, 16, .rol2 45⟩, ⟨16, 5, .rol2 36⟩, ⟨5, 3, .rol2 28⟩,
    ⟨3, 18, .rol2 21⟩, ⟨18, 17, .rol2 15⟩, ⟨17, 11, .rol2 10⟩, ⟨11, 7, .rol2 6⟩, ⟨7, 10, .rol2 3⟩]

/-- The chain of rho and pi in `SHA3_512`. -/
def bitMoves : List (KeccakF.Move Rot) :=
  [⟨1, 6, .rol2 44⟩, ⟨6, 9, .rol2 20⟩, ⟨9, 22, .rol2 61⟩, ⟨22, 14, .rol2 39⟩, ⟨14, 20, .rol2 18⟩, ⟨20, 2, .rol2 62⟩,
    ⟨2, 12, .rol2 43⟩, ⟨12, 13, .rol2 25⟩, ⟨13, 19, .rol2 8⟩, ⟨19, 23, .rol2 56⟩, ⟨23, 15, .rol2 41⟩, ⟨15, 4, .rol2 27⟩,
    ⟨4, 24, .rol2 14⟩, ⟨24, 21, .rol2 2⟩, ⟨21, 8, .rol2 55⟩, ⟨8, 16, .rol2 45⟩, ⟨16, 5, .rol2 36⟩, ⟨5, 3, .rol2 28⟩,
    ⟨3, 18, .rol2 21⟩, ⟨18, 17, .rol2 15⟩, ⟨17, 11, .rol2 10⟩, ⟨11, 7, .rol2 6⟩, ⟨7, 10, .rol2 3⟩]

/-- A whole round, from the sums `t` of its columns. -/
def keccakRound (ms : List (KeccakF.Move Rot)) (rc : Uint2) (t : ℕ → Uint2) (s : Fin 25 → Uint2) : Fin 25 → Uint2 :=
  let s := KeccakF.thetaWith cudaOps t s
  let u := s 1
  let s := KeccakF.moves Rot.apply ms s
  let s := Function.update s 10 (rol2 u 1)
  let s := KeccakF.chiRows cudaOps s
  Function.update s 0 (s 0 ^^^ rc)

/-- The last round of `keccak_f1600_init` and of `SHA3_512`, over any operations. -/
def lastRound (o : KeccakF.LaneOps Uint2) (t : ℕ → Uint2) (rc : Uint2) (s : Fin 25 → Uint2) : Fin 25 → Uint2 :=
  let s := KeccakF.xorInto o (o.xor (t 4) (o.rotl 1 (t 1))) [0, 10] s
  let s := KeccakF.xorInto o (o.xor (t 0) (o.rotl 1 (t 2))) [6, 16] s
  let s := KeccakF.xorInto o (o.xor (t 1) (o.rotl 1 (t 3))) [12, 22] s
  let s := KeccakF.xorInto o (o.xor (t 2) (o.rotl 1 (t 4))) [3, 18] s
  let s := KeccakF.xorInto o (o.xor (t 3) (o.rotl 1 (t 0))) [9, 24] s
  let s := KeccakF.moves o.rotl
    [⟨1, 6, 44⟩, ⟨6, 9, 20⟩, ⟨9, 22, 61⟩, ⟨2, 12, 43⟩, ⟨4, 24, 14⟩, ⟨8, 16, 45⟩, ⟨5, 3, 28⟩, ⟨3, 18, 21⟩, ⟨7, 10, 3⟩] s
  let u := s 0
  let v := s 1
  let s := Function.update s 0 (o.chi (s 0) (s 1) (s 2))
  let s := Function.update s 1 (o.chi (s 1) (s 2) (s 3))
  let s := Function.update s 2 (o.chi (s 2) (s 3) (s 4))
  let s := Function.update s 3 (o.chi (s 3) (s 4) u)
  let s := Function.update s 4 (o.chi (s 4) u v)
  let s := Function.update s 5 (o.chi (s 5) (s 6) (s 7))
  let s := Function.update s 6 (o.chi (s 6) (s 7) (s 8))
  let s := Function.update s 7 (o.chi (s 7) (s 8) (s 9))
  Function.update s 0 (o.xor (s 0) rc)

/-- The last round of `keccak_f1600_final`: what it returns. -/
def lastLane (s : Fin 25 → Uint2) : Uint2 :=
  let t := columnSums s
  let s := Function.update s 0 (xor3 (s 0) (t 4) (rol2 (t 1) 1))
  let s := Function.update s 6 (xor3 (s 6) (t 0) (rol2 (t 2) 1))
  let s := Function.update s 12 (xor3 (s 12) (t 1) (rol2 (t 3) 1))
  let s := Function.update s 1 (rol2 (s 6) 44)
  let s := Function.update s 2 (rol2 (s 12) 43)
  let s := Function.update s 0 (chi (s 0) (s 1) (s 2))
  s 0 ^^^ roundConst 23

/-- `s` at the start of `keccak_f1600_init`. -/
def initLanes (header : Hash 8) (state : Fin 12 → Uint2) : Fin 25 → Uint2 :=
  ![uint2s header 0, uint2s header 1, uint2s header 2, uint2s header 3, state 4, ⟨1, 0⟩, ⟨0, 0⟩, ⟨0, 0⟩,
    ⟨0, 0x80000000⟩, ⟨0, 0⟩, ⟨0, 0⟩, ⟨0, 0⟩, ⟨0, 0⟩, ⟨0, 0⟩, ⟨0, 0⟩, ⟨0, 0⟩, ⟨0, 0⟩, ⟨0, 0⟩, ⟨0, 0⟩, ⟨0, 0⟩,
    ⟨0, 0⟩, ⟨0, 0⟩, ⟨0, 0⟩, ⟨0, 0⟩, ⟨0, 0⟩]

/-- `s` at the start of `keccak_f1600_final`. -/
def finalLanes (state : Fin 12 → Uint2) : Fin 25 → Uint2 :=
  ![state 0, state 1, state 2, state 3, state 4, state 5, state 6, state 7, state 8, state 9, state 10, state 11,
    ⟨1, 0⟩, ⟨0, 0⟩, ⟨0, 0⟩, ⟨0, 0⟩, ⟨0, 0x80000000⟩, ⟨0, 0⟩, ⟨0, 0⟩, ⟨0, 0⟩, ⟨0, 0⟩, ⟨0, 0⟩, ⟨0, 0⟩, ⟨0, 0⟩, ⟨0, 0⟩]

/-- `s` before the rounds of `SHA3_512`. -/
def sha3Lanes (s : Fin 25 → Uint2) : Fin 25 → Uint2 := fun i =>
  if i.val < 8 then s i else if i.val = 8 then ⟨1, 0x80000000⟩ else ⟨0, 0⟩

/-- `for (int i = 1; i < 23; i++)` around a round. -/
def middleRounds (s : Fin 25 → Uint2) : Fin 25 → Uint2 :=
  forLoop (fun i s => keccakRound byteMoves (roundConst (i + 1)) (columnSums s) s) 22 s

/-- `keccak_f1600_init`, on a `d_header` and a `state`. -/
def keccakF1600Init (header : Hash 8) (state : Fin 12 → Uint2) : Fin 12 → Uint2 :=
  let s := initLanes header state
  let s := keccakRound byteMoves (roundConst 0) (initSums s) s
  let s := middleRounds s
  let s := lastRound cudaOps (columnSums s) (roundConst 23) s
  firstLanes s

/-- `keccak_f1600_final`. -/
def keccakF1600Final (state : Fin 12 → Uint2) : BitVec 64 :=
  let s := finalLanes state
  let s := keccakRound byteMoves (roundConst 0) (finalSums s) s
  let s := middleRounds s
  asUlong (lastLane s)

/-- `SHA3_512`. -/
def sha3512 (s : Fin 25 → Uint2) : Fin 25 → Uint2 :=
  let s := sha3Lanes s
  let s := forLoop (fun i s => keccakRound bitMoves (roundConst i) (columnSums s) s) 23 s
  lastRound cudaOps (columnSums s) (roundConst 23) s

section Operations

/-- **`ROL2` is a rotation.** -/
theorem rol2_eq (v : Uint2) {n : ℕ} (hn : n < 64) : rol2 v n = Uint2.rotl n v := by
  unfold rol2 Uint2.rotl asUlong
  rcases Nat.lt_trichotomy n 32 with hlow | rfl | hhigh
  · rw [if_pos hlow.le, asUint2_rotateLeft _ _ hlow]
  · have hswap := rotateLeft_swap v.x v.y (n := 0) (by decide)
    rw [Nat.zero_add] at hswap
    rw [hswap, asUint2_rotateLeft _ _ (by decide)]
    simp [BitVec.ushiftRight_eq_zero]
  · obtain ⟨m, rfl⟩ : ∃ m, n = m + 32 := ⟨n - 32, by omega⟩
    have hsub : 64 - (m + 32) = 32 - m := by omega
    rw [if_neg (by omega), Nat.add_sub_cancel, hsub, rotateLeft_swap _ _ (by omega), asUint2_rotateLeft _ _ (by omega)]

/-- **On lanes read as words the operations are those of the CPU code.** -/
theorem cudaOps_hom : KeccakF.LaneOps.Hom cudaOps wordOps asUlong where
  xor := asUlong_xor
  chi := asUlong_hom.chi
  rotl n hn a := by
    have hrol : cudaOps.rotl n a = uint2Ops.rotl n a := rol2_eq a hn
    rw [hrol, asUlong_hom.rotl n hn]

/-- Two shifted words side by side. -/
theorem toNat_shiftLeft_or (a b : BitVec 32) {k : ℕ} (hk : k ≤ 32) :
    (a <<< k ||| b >>> (32 - k)).toNat = a.toNat % 2 ^ (32 - k) * 2 ^ k + b.toNat / 2 ^ (32 - k) := by
  have hb : b.toNat / 2 ^ (32 - k) < 2 ^ k := by
    rw [Nat.div_lt_iff_lt_mul (by positivity), ← pow_add, Nat.add_sub_cancel' hk]
    exact b.isLt
  have ha : a.toNat <<< k % 2 ^ 32 = (a.toNat % 2 ^ (32 - k)) <<< k := by
    rw [Nat.shiftLeft_eq, Nat.shiftLeft_eq, ← Nat.mul_mod_mul_right, ← pow_add, Nat.sub_add_cancel hk]
  rw [BitVec.toNat_or, BitVec.toNat_shiftLeft, BitVec.toNat_ushiftRight, ha, Nat.shiftRight_eq_div_pow,
    ← Nat.shiftLeft_add_eq_or_of_lt hb, Nat.shiftLeft_eq]

theorem bytePerm_6543 (x y : BitVec 32) : bytePerm x y 0x6543 = y <<< 8 ||| x >>> 24 := by
  have hx := x.isLt
  have hy := y.isLt
  apply BitVec.eq_of_toNat_eq
  rw [toNat_shiftLeft_or y x (k := 8) (by decide)]
  simp [bytePerm, leBytes, leValue, List.range_succ]
  omega

theorem bytePerm_0765 (x y : BitVec 32) : bytePerm x y 0x0765 = x <<< 24 ||| y >>> 8 := by
  have hx := x.isLt
  have hy := y.isLt
  apply BitVec.eq_of_toNat_eq
  rw [toNat_shiftLeft_or x y (k := 24) (by decide)]
  simp [bytePerm, leBytes, leValue, List.range_succ]
  omega

theorem bytePerm_2107 (x y : BitVec 32) : bytePerm x y 0x2107 = bytePerm y x 0x6543 := by
  simp [bytePerm, leBytes, List.range_succ]

theorem bytePerm_4321 (x y : BitVec 32) : bytePerm x y 0x4321 = bytePerm y x 0x0765 := by
  simp [bytePerm, leBytes, List.range_succ]

/-- `ROL8` moves the bytes of both halves up by one. -/
theorem rol8_eq (v : Uint2) : rol8 v = rol2 v 8 := by
  rw [rol8, bytePerm_2107, bytePerm_6543, bytePerm_6543]
  rfl

/-- `ROR8` moves them down. -/
theorem ror8_eq (v : Uint2) : ror8 v = rol2 v 56 := by
  rw [ror8, bytePerm_4321, bytePerm_0765, bytePerm_0765]
  rfl

/-- How far a rotation goes. -/
def Rot.amount : Rot → ℕ
  | .rol2 n => n
  | .rol8 => 8
  | .ror8 => 56

theorem Rot.apply_eq (r : Rot) : r.apply = cudaOps.rotl r.amount := by
  funext v
  cases r with
  | rol2 n => rfl
  | rol8 => exact rol8_eq v
  | ror8 => exact ror8_eq v

theorem xor_zero_lane (v : Uint2) : v ^^^ ⟨0, 0⟩ = v := by
  apply asUlong_injective
  rw [asUlong_xor]
  exact BitVec.xor_zero

/-- Sums of columns with lanes that are zero. -/
theorem xor5_three (a b c : Uint2) : xor5 a b c ⟨0, 0⟩ ⟨0, 0⟩ = a ^^^ b ^^^ c := by
  rw [xor5, xor_zero_lane, xor_zero_lane]

theorem xor5_two (a b : Uint2) : xor5 a b ⟨0, 0⟩ ⟨0, 0⟩ ⟨0, 0⟩ = a ^^^ b := by
  rw [xor5_three, xor_zero_lane]

theorem xor5_one (a : Uint2) : xor5 a ⟨0, 0⟩ ⟨0, 0⟩ ⟨0, 0⟩ ⟨0, 0⟩ = a := by
  rw [xor5_two, xor_zero_lane]

theorem xor3_eq (a b c : Uint2) : xor3 a b c = a ^^^ (b ^^^ c) := by
  apply asUlong_injective
  simp only [xor3, asUlong_xor]
  exact BitVec.xor_assoc _ _ _

end Operations

section Rounds

theorem moves_byteMoves (s : Fin 25 → Uint2) :
    KeccakF.moves Rot.apply byteMoves s = KeccakF.moves cudaOps.rotl KeccakF.rhoPiMoves s :=
  KeccakF.moves_map Rot.amount (fun m _ => m.rot.apply_eq) s

theorem moves_bitMoves (s : Fin 25 → Uint2) :
    KeccakF.moves Rot.apply bitMoves s = KeccakF.moves cudaOps.rotl KeccakF.rhoPiMoves s :=
  KeccakF.moves_map Rot.amount (fun m _ => m.rot.apply_eq) s

/-- **The text of a round is a round**, if its sums are those of the columns. -/
theorem keccakRound_eq {ms : List (KeccakF.Move Rot)}
    (hms : ∀ s, KeccakF.moves Rot.apply ms s = KeccakF.moves cudaOps.rotl KeccakF.rhoPiMoves s) (rc : Uint2)
    {t : ℕ → Uint2} {s : Fin 25 → Uint2} (ht : ∀ x < 5, t x = KeccakF.column cudaOps s x) :
    keccakRound ms rc t s = KeccakF.round cudaOps rc s := by
  have hrhoPi := KeccakF.update_moves_eq_rhoPi cudaOps (KeccakF.theta cudaOps s) (KeccakF.theta cudaOps s 1)
  rw [Function.update_eq_self] at hrhoPi
  change KeccakF.iota cudaOps rc (KeccakF.chiRows cudaOps
    (Function.update (KeccakF.moves Rot.apply ms (KeccakF.thetaWith cudaOps t s)) 10
      (cudaOps.rotl 1 (KeccakF.thetaWith cudaOps t s 1)))) = _
  rw [KeccakF.thetaWith_of_column cudaOps ht, hms, hrhoPi, KeccakF.chiRows_eq_chi]
  rfl

theorem columnSums_eq (s : Fin 25 → Uint2) : ∀ x < 5, columnSums s x = KeccakF.column cudaOps s x := by
  intro x hx
  interval_cases x <;> rfl

/-- The lanes left out of the sums are zero. -/
theorem initSums_eq (header : Hash 8) (state : Fin 12 → Uint2) :
    ∀ x < 5, initSums (initLanes header state) x = KeccakF.column cudaOps (initLanes header state) x := by
  have hlow : ∀ a : Uint2, (⟨a.x ^^^ 1, a.y⟩ : Uint2) = xor5 a ⟨1, 0⟩ ⟨0, 0⟩ ⟨0, 0⟩ ⟨0, 0⟩ := by
    intro a
    rw [xor5_two]
    exact congrArg _ BitVec.xor_zero.symm
  have hhigh : ∀ a : Uint2, (⟨a.x, a.y ^^^ 0x80000000⟩ : Uint2) = xor5 a ⟨0, 0x80000000⟩ ⟨0, 0⟩ ⟨0, 0⟩ ⟨0, 0⟩ := by
    intro a
    rw [xor5_two]
    exact congrArg (Uint2.mk · _) BitVec.xor_zero.symm
  intro x hx
  interval_cases x
  · exact hlow (uint2s header 0)
  · exact (xor5_one (uint2s header 1)).symm
  · exact (xor5_one (uint2s header 2)).symm
  · exact hhigh (uint2s header 3)
  · exact (xor5_one (state 4)).symm

theorem finalSums_eq (state : Fin 12 → Uint2) :
    ∀ x < 5, finalSums (finalLanes state) x = KeccakF.column cudaOps (finalLanes state) x := by
  intro x hx
  interval_cases x
  · exact (xor5_three (state 0) (state 5) (state 10)).symm
  · exact (xor_zero_lane (xor3 (state 1) (state 6) (state 11) ^^^ ⟨0, 0x80000000⟩)).symm
  · exact (xor5_three (state 2) (state 7) ⟨1, 0⟩).symm
  · exact (xor5_two (state 3) (state 8)).symm
  · exact (xor5_two (state 4) (state 9)).symm

/-- The shortened round computes the first eight lanes. -/
theorem lastRound_lane (o : KeccakF.LaneOps Uint2) (rc : Uint2) {t : ℕ → Uint2} {s : Fin 25 → Uint2}
    (ht : ∀ x < 5, t x = KeccakF.column o s x) (i : Fin 8) :
    lastRound o t rc s (i.castLE eight_le_twentyFive) = KeccakF.round o rc s (i.castLE eight_le_twentyFive) := by
  have hsums : lastRound o t rc s = lastRound o (KeccakF.column o s) rc s := by
    simp only [lastRound, ht 0 (by decide), ht 1 (by decide), ht 2 (by decide), ht 3 (by decide), ht 4 (by decide)]
  rw [hsums]
  fin_cases i <;> rfl

/-- The shortest one computes lane 0. -/
theorem lastLane_eq (s : Fin 25 → Uint2) : lastLane s = KeccakF.round cudaOps (roundConst 23) s 0 := by
  unfold lastLane
  simp only [xor3_eq]
  rfl

/-- The first round and the loop after it are 23 rounds. -/
theorem middleRounds_eq (s : Fin 25 → Uint2) :
    middleRounds (KeccakF.round cudaOps (roundConst 0) s) = KeccakF.rounds cudaOps roundConst 23 s := by
  have hbody : (fun i s => keccakRound byteMoves (roundConst (i + 1)) (columnSums s) s) =
      fun i => KeccakF.round cudaOps (roundConst (i + 1)) := by
    funext i s
    exact keccakRound_eq moves_byteMoves _ (columnSums_eq s)
  rw [middleRounds, hbody]
  exact forLoop_succ_first (fun i => KeccakF.round cudaOps (roundConst i)) 22 s

theorem asUlong_roundConst : ∀ i < 24, asUlong (roundConst i) = roundConstant i := by decide

/-- The rounds over the kernels' operations, as a GPU implementation of the permutation. -/
def cudaKeccak : KeccakProcess keccakf1600 where
  run s _ := KeccakF.rounds cudaOps roundConst 24 s
  run_lane s _ j _ := by
    rw [keccakf1600_eq_rounds, ← asUlong_rounds cudaOps_hom asUlong_roundConst]

end Rounds

section Hashes

theorem keccakF1600Init_eq (header : Hash 8) (state : Fin 12 → Uint2) (i : Fin 8) :
    keccakF1600Init header state (i.castLE eight_le_twelve) =
      cudaKeccak.run (initLanes header state) 8 (i.castLE eight_le_twentyFive) := by
  unfold keccakF1600Init
  rw [keccakRound_eq moves_byteMoves _ (initSums_eq header state), middleRounds_eq]
  exact lastRound_lane cudaOps (roundConst 23) (columnSums_eq _) i

theorem keccakF1600Final_eq (state : Fin 12 → Uint2) :
    keccakF1600Final state = asUlong (cudaKeccak.run (finalLanes state) 1 0) := by
  change asUlong (lastLane (middleRounds (keccakRound byteMoves (roundConst 0) _ _))) = _
  rw [keccakRound_eq moves_byteMoves _ (finalSums_eq state), middleRounds_eq, lastLane_eq]
  rfl

theorem sha3512_eq_run (s : Fin 25 → Uint2) (i : Fin 8) :
    sha3512 s (i.castLE eight_le_twentyFive) = cudaKeccak.run (sha3Lanes s) 8 (i.castLE eight_le_twentyFive) := by
  have hbody : (fun i s => keccakRound bitMoves (roundConst i) (columnSums s) s) =
      fun i => KeccakF.round cudaOps (roundConst i) := by
    funext i s
    exact keccakRound_eq moves_bitMoves _ (columnSums_eq s)
  unfold sha3512
  rw [hbody]
  exact lastRound_lane cudaOps (roundConst 23) (columnSums_eq _) i

/-- The padding written as pairs. -/
theorem asUint2_pads : asUint2 0x0000000000000001 = ⟨1, 0⟩ ∧ asUint2 0x8000000000000000 = ⟨0, 0x80000000⟩ := by
  decide

theorem initLanes_eq (header : Hash 8) {state : Fin 12 → Uint2} {nonce : BitVec 64} (h : state 4 = asUint2 nonce) :
    initLanes header state = initState header nonce := by
  rw [initLanes, initState, h, asUint2_pads.1, asUint2_pads.2]

theorem finalLanes_eq (state : Fin 12 → Uint2) : finalLanes state = finalState state := by
  rw [finalLanes, finalState, asUint2_pads.1, asUint2_pads.2]

theorem asUlong_sha3Lanes {s : Fin 25 → Uint2} {node : Hash 16}
    (h : HoldsSeed (fun i => s (i.castLE eight_le_twentyFive)) node) :
    (fun j => asUlong (sha3Lanes s j)) = padded 9 (lanes (m := 8) node) := by
  have hlength : (lanes (m := 8) node).length = 8 := by simp [lanes]
  have hunmarked : ∀ w : BitVec 64, w ^^^ 0 ^^^ 0 = w := by simp
  funext j
  unfold sha3Lanes padded
  rw [hlength]
  rcases Nat.lt_trichotomy j.val 8 with hj | hj | hj
  · have hlane : s j = ⟨node ⟨2 * j, by omega⟩, node ⟨2 * j + 1, by omega⟩⟩ := h ⟨j, hj⟩
    rw [if_pos hj, if_neg (by omega), if_neg (by omega), hunmarked, hlane, lanes,
      List.getD_eq_getElem _ _ (by simpa using hj), List.getElem_ofFn]
    rfl
  · rw [if_neg (by omega), if_pos hj, if_pos hj, if_pos (by omega), List.getD_eq_default _ _ (by omega)]
    decide
  · rw [if_neg (by omega), if_neg (by omega), if_neg (by omega), if_neg (by omega),
      List.getD_eq_default _ _ (by omega)]
    decide

/-- `keccak_f1600_init` leaves the seed in the lanes `0, …, 7`. -/
theorem keccakF1600Init_holdsSeed (header : Hash 8) {state : Fin 12 → Uint2} {nonce : BitVec 64}
    (h : state 4 = asUint2 nonce) :
    HoldsSeed (fun i => keccakF1600Init header state (i.castLE eight_le_twelve)) (hashSeed keccakf1600 header nonce) := by
  intro i
  simp only
  rw [keccakF1600Init_eq, initLanes_eq header h]
  exact cudaKeccak.run_initState header nonce i

/-- `SHA3_512` leaves the hash of the node in the lanes `0, …, 7`. -/
theorem sha3512_holdsSeed {s : Fin 25 → Uint2} {node : Hash 16}
    (h : HoldsSeed (fun i => s (i.castLE eight_le_twentyFive)) node) :
    HoldsSeed (fun i => sha3512 s (i.castLE eight_le_twentyFive)) (keccak512 keccakf1600 (bytes node)) := by
  intro i
  simp only
  rw [sha3512_eq_run, keccak512_bytes, ← asUlong_sha3Lanes h]
  exact cudaKeccak.run_holdsSeed (sha3Lanes s) i

/-- **The three CUDA variants are Keccak.**  `keccak_f1600_init` leaves Keccak-512 of the header and the
nonce in `state[0..7]`, `keccak_f1600_final` returns the first word of Keccak-256 of the twelve lanes,
and `SHA3_512` leaves Keccak-512 of the first eight lanes in their place. -/
theorem cuda_keccak_agrees :
    (∀ (header : Hash 8) (nonce : BitVec 64) (state : Fin 12 → Uint2), state 4 = asUint2 nonce →
      HoldsSeed (fun i => keccakF1600Init header state (i.castLE eight_le_twelve))
        (keccak512 keccakf1600 (bytes header ++ leBytes 8 nonce.toNat))) ∧
    (∀ state : Fin 12 → Uint2, keccakF1600Final state =
      firstWord64 (keccak256 keccakf1600 (wordBytes (List.ofFn fun i => asUlong (state i))))) ∧
    ∀ (s : Fin 25 → Uint2) (node : Hash 16), HoldsSeed (fun i => s (i.castLE eight_le_twentyFive)) node →
      HoldsSeed (fun i => sha3512 s (i.castLE eight_le_twentyFive)) (keccak512 keccakf1600 (bytes node)) := by
  refine ⟨fun header nonce state h => ?_, fun state => ?_, fun s node h => ?_⟩
  · exact keccakF1600Init_holdsSeed header h
  · rw [keccakF1600Final_eq, finalLanes_eq]
    exact cudaKeccak.run_finalState_lane state
  · exact sha3512_holdsSeed h

section ComputeHash

variable (kp : KeccakProcess keccakf1600) (c : Constants)

/-- The lanes `compute_hash` reads are those of any implementation of the permutation. -/
theorem keccakF1600Init_lane (nonce : BitVec 64) {state : Fin 12 → Uint2} (h : state 4 = asUint2 nonce) (i : Fin 8) :
    keccakF1600Init c.header state (i.castLE eight_le_twelve) =
      Cuda.keccakF1600Init kp c nonce (i.castLE eight_le_twelve) := by
  have hcuda := keccakF1600Init_holdsSeed c.header h i
  have hkp := kp.run_initState c.header nonce i
  exact hcuda.trans hkp.symm

theorem keccakF1600Final_eq_of (state : Fin 12 → Uint2) : keccakF1600Final state = Cuda.keccakF1600Final kp state := by
  rw [keccakF1600Final_eq, finalLanes_eq, cudaKeccak.run_finalState_lane, Cuda.keccakF1600Final, kp.run_finalState_lane]

end ComputeHash

end Hashes

end Keccak
end Cuda
end EtcMiner
