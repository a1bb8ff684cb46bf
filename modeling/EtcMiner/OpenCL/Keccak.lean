/-
# The Keccak of the OpenCL kernels

`KECCAKF_1600_RND` and `KECCAK_PROCESS` in `libcl/ethash.cl`, on lanes held as `uint2`.  Rho and pi are a
chain of overwrites with lane 1 saved in `tmp`, a rotation is `ROTL64_1` or, by 32 bits more, `ROTL64_2`,
chi is a `bitselect`, and the last round leaves out the rows of chi that the caller does not read.

`mediaOps` says whether the device has `cl_amd_media_ops`: the rotations are then made with
`amd_bitalign`.  Both ways they are rotations (`rotl64_1_eq`, `rotl64_2_eq`), and a round is a round of
Keccak-f on the lanes below its output size (`keccakf1600Rnd_lane`), whatever that size is.  So
`KECCAK_PROCESS` is the permutation of the CPU code as the kernels expect it (`clKeccak`), and what they
hash with it is what the CPU code hashes (`opencl_keccak_agrees`).
-/

import EtcMiner.Gpu.Lanes
import EtcMiner.OpenCL.GenerateDag

namespace EtcMiner
namespace OpenCL

open Lib Ethash Gpu

/-- `amd_bitalign(src0, src1, src2)`. -/
def amdBitalign (src0 src1 : BitVec 32) (src2 : ℕ) : BitVec 32 := (join src1 src0 >>> (src2 % 32)).setWidth 32

/-- `bitselect(a, b, c)`: the bits of `b` where `c` has ones, those of `a` elsewhere. -/
def bitselect (a b c : Uint2) : Uint2 := (a &&& ~~~c) ||| (b &&& c)

/-- `Keccak_f1600_RC`. -/
def keccakF1600RC : List Uint2 :=
  [⟨0x00000001, 0x00000000⟩, ⟨0x00008082, 0x00000000⟩, ⟨0x0000808a, 0x80000000⟩, ⟨0x80008000, 0x80000000⟩,
    ⟨0x0000808b, 0x00000000⟩, ⟨0x80000001, 0x00000000⟩, ⟨0x80008081, 0x80000000⟩, ⟨0x00008009, 0x80000000⟩,
    ⟨0x0000008a, 0x00000000⟩, ⟨0x00000088, 0x00000000⟩, ⟨0x80008009, 0x00000000⟩, ⟨0x8000000a, 0x00000000⟩,
    ⟨0x8000808b, 0x00000000⟩, ⟨0x0000008b, 0x80000000⟩, ⟨0x00008089, 0x80000000⟩, ⟨0x00008003, 0x80000000⟩,
    ⟨0x00008002, 0x80000000⟩, ⟨0x00000080, 0x80000000⟩, ⟨0x0000800a, 0x00000000⟩, ⟨0x8000000a, 0x80000000⟩,
    ⟨0x80008081, 0x80000000⟩, ⟨0x00008080, 0x80000000⟩, ⟨0x80000001, 0x00000000⟩, ⟨0x80008008, 0x80000000⟩]

/-- `Keccak_f1600_RC[i]`. -/
def rcLane (i : ℕ) : Uint2 := keccakF1600RC.getD i ⟨0, 0⟩

/-- `ROTL64_1(x, y)` and `ROTL64_2(x, y)` as they are used below, for a constant `y`. -/
inductive Rotl64 where
  | one (y : ℕ)
  | two (y : ℕ)

section Round

variable (mediaOps : Bool)

/-- `ROTL64_1(x, y)`. -/
def rotl64_1 (x : Uint2) (y : ℕ) : Uint2 :=
  if mediaOps then ⟨amdBitalign x.x x.y (32 - y), amdBitalign x.y x.x (32 - y)⟩
  else asUint2 ((asUlong x).rotateLeft y)

/-- `ROTL64_2(x, y)`. -/
def rotl64_2 (x : Uint2) (y : ℕ) : Uint2 :=
  if mediaOps then ⟨amdBitalign x.y x.x (32 - y), amdBitalign x.x x.y (32 - y)⟩
  else rotl64_1 mediaOps x (y + 32)

/-- One of the two. -/
def Rotl64.apply : Rotl64 → Uint2 → Uint2
  | .one y, x => rotl64_1 mediaOps x y
  | .two y, x => rotl64_2 mediaOps x y

/-- `bitselect(a ^ c, a, b)`. -/
def chiSelect (a b c : Uint2) : Uint2 := bitselect (a ^^^ c) a b

/-- The operations of the macro, its rotations apart. -/
def selectOps : KeccakF.LaneOps Uint2 := { uint2Ops with chi := chiSelect }

/-- `m0`. -/
def m0 (a : Fin 25 → Uint2) : Uint2 :=
  a 0 ^^^ a 5 ^^^ a 10 ^^^ a 15 ^^^ a 20 ^^^ rotl64_1 mediaOps (a 2 ^^^ a 7 ^^^ a 12 ^^^ a 17 ^^^ a 22) 1

/-- `m1`. -/
def m1 (a : Fin 25 → Uint2) : Uint2 :=
  a 1 ^^^ a 6 ^^^ a 11 ^^^ a 16 ^^^ a 21 ^^^ rotl64_1 mediaOps (a 3 ^^^ a 8 ^^^ a 13 ^^^ a 18 ^^^ a 23) 1

/-- `m2`. -/
def m2 (a : Fin 25 → Uint2) : Uint2 :=
  a 2 ^^^ a 7 ^^^ a 12 ^^^ a 17 ^^^ a 22 ^^^ rotl64_1 mediaOps (a 4 ^^^ a 9 ^^^ a 14 ^^^ a 19 ^^^ a 24) 1

/-- `m3`. -/
def m3 (a : Fin 25 → Uint2) : Uint2 :=
  a 3 ^^^ a 8 ^^^ a 13 ^^^ a 18 ^^^ a 23 ^^^ rotl64_1 mediaOps (a 0 ^^^ a 5 ^^^ a 10 ^^^ a 15 ^^^ a 20) 1

/-- `m4`. -/
def m4 (a : Fin 25 → Uint2) : Uint2 :=
  a 4 ^^^ a 9 ^^^ a 14 ^^^ a 19 ^^^ a 24 ^^^ rotl64_1 mediaOps (a 1 ^^^ a 6 ^^^ a 11 ^^^ a 16 ^^^ a 21) 1

/-- The lanes after theta, except for lane 1, which goes to `tmp`. -/
def rndTheta (a : Fin 25 → Uint2) : Fin 25 → Uint2 :=
  KeccakF.xorInto uint2Ops (m3 mediaOps a) [4, 9, 14, 19, 24]
    (KeccakF.xorInto uint2Ops (m2 mediaOps a) [3, 8, 13, 18, 23]
      (KeccakF.xorInto uint2Ops (m1 mediaOps a) [2, 7, 12, 17, 22]
        (KeccakF.xorInto uint2Ops (m0 mediaOps a) [6, 11, 16, 21]
          (KeccakF.xorInto uint2Ops (m4 mediaOps a) [0, 5, 10, 15, 20] a))))

/-- The chain of overwrites, up to the last one. -/
def rndMoves : List (KeccakF.Move Rotl64) :=
  [⟨1, 6, .two 12⟩, ⟨6, 9, .one 20⟩, ⟨9, 22, .two 29⟩, ⟨22, 14, .two 7⟩, ⟨14, 20, .one 18⟩, ⟨20, 2, .two 30⟩,
    ⟨2, 12, .two 11⟩, ⟨12, 13, .one 25⟩, ⟨13, 19, .one 8⟩, ⟨19, 23, .two 24⟩, ⟨23, 15, .two 9⟩, ⟨15, 4, .one 27⟩,
    ⟨4, 24, .one 14⟩, ⟨24, 21, .one 2⟩, ⟨21, 8, .two 23⟩, ⟨8, 16, .two 13⟩, ⟨16, 5, .two 4⟩, ⟨5, 3, .one 28⟩,
    ⟨3, 18, .one 21⟩, ⟨18, 17, .one 15⟩, ⟨17, 11, .one 10⟩, ⟨11, 7, .one 6⟩, ⟨7, 10, .one 3⟩]

/-- From `m5 = a[0]` on: chi on the rows of the output, and iota. -/
def rndChi (o : KeccakF.LaneOps Uint2) (rc : Uint2) (outsz : ℕ) (a : Fin 25 → Uint2) : Fin 25 → Uint2 :=
  let m5 := a 0
  let m6 := a 1
  let a := Function.update a 0 (o.chi (a 0) (a 1) (a 2))
  let a := Function.update a 0 (o.xor (a 0) rc)
  if 1 < outsz then
    let a := Function.update a 1 (o.chi (a 1) (a 2) (a 3))
    let a := Function.update a 2 (o.chi (a 2) (a 3) (a 4))
    let a := Function.update a 3 (o.chi (a 3) (a 4) m5)
    let a := Function.update a 4 (o.chi (a 4) m5 m6)
    if 4 < outsz then
      let a := KeccakF.chiRow o 5 a
      if 8 < outsz then KeccakF.chiRow o 20 (KeccakF.chiRow o 15 (KeccakF.chiRow o 10 a))
      else a
    else a
  else a

/-- `KECCAKF_1600_RND(a, i, outsz)`. -/
def keccakf1600Rnd (i outsz : ℕ) (a : Fin 25 → Uint2) : Fin 25 → Uint2 :=
  let tmp := a 1 ^^^ m0 mediaOps a
  let a := KeccakF.moves (Rotl64.apply mediaOps) rndMoves (rndTheta mediaOps a)
  let a := Function.update a 10 (rotl64_1 mediaOps tmp 1)
  rndChi selectOps (rcLane i) outsz a

/-- `KECCAK_PROCESS(st, in_size, out_size)`. -/
def keccakProcess (st : Fin 25 → Uint2) (outSize : ℕ) : Fin 25 → Uint2 :=
  forLoop (fun r => keccakf1600Rnd mediaOps r (if r < 23 then 25 else outSize)) 24 st

end Round

section Operations

/-- A shift of two words side by side, as `amd_bitalign` makes it. -/
theorem amdBitalign_eq (hi lo : BitVec 32) {y : ℕ} (hpos : 0 < y) (hy : y < 32) :
    amdBitalign hi lo (32 - y) = hi <<< y ||| lo >>> (32 - y) := by
  have hmod : (32 - y) % 32 = 32 - y := Nat.mod_eq_of_lt (by omega)
  apply BitVec.eq_of_getLsbD_eq
  intro i hi'
  simp only [amdBitalign, join, hmod, BitVec.getLsbD_setWidth, BitVec.getLsbD_ushiftRight, BitVec.getLsbD_append,
    BitVec.getLsbD_or, BitVec.getLsbD_shiftLeft, hi', decide_true, Bool.true_and]
  by_cases hlow : i < y
  · simp [hlow, show 32 - y + i < 32 by omega]
  · simp [hlow, show ¬ 32 - y + i < 32 by omega, show 32 ≤ 32 - y + i by omega,
      show 32 - y + i - 32 = i - y by omega]

/-- **`ROTL64_1` is a rotation**, with `amd_bitalign` and without. -/
theorem rotl64_1_eq (mediaOps : Bool) (x : Uint2) {y : ℕ} (hpos : 0 < y) (hy : y < 32) :
    rotl64_1 mediaOps x y = Uint2.rotl y x := by
  unfold rotl64_1
  cases mediaOps with
  | false => rfl
  | true =>
    rw [if_pos rfl, amdBitalign_eq _ _ hpos hy, amdBitalign_eq _ _ hpos hy]
    exact (asUint2_rotateLeft x.x x.y hy).symm

/-- **`ROTL64_2` is a rotation** by 32 bits more. -/
theorem rotl64_2_eq (mediaOps : Bool) (x : Uint2) {y : ℕ} (hpos : 0 < y) (hy : y < 32) :
    rotl64_2 mediaOps x y = Uint2.rotl (y + 32) x := by
  unfold rotl64_2
  cases mediaOps with
  | false => rfl
  | true =>
    rw [if_pos rfl, amdBitalign_eq _ _ hpos hy, amdBitalign_eq _ _ hpos hy, Uint2.rotl, asUlong, rotateLeft_swap _ _ hy]
    exact (asUint2_rotateLeft x.y x.x hy).symm

/-- `bitselect` is chi. -/
theorem chiSelect_eq (a b c : Uint2) : chiSelect a b c = a ^^^ (~~~b &&& c) := by
  apply asUlong_injective
  simp only [chiSelect, bitselect, asUlong_or, asUlong_and, asUlong_xor, asUlong_not]
  apply BitVec.eq_of_getLsbD_eq
  intro i hi
  simp only [BitVec.getLsbD_or, BitVec.getLsbD_and, BitVec.getLsbD_xor, BitVec.getLsbD_not, hi, decide_true,
    Bool.true_and]
  cases (asUlong a).getLsbD i <;> cases (asUlong b).getLsbD i <;> cases (asUlong c).getLsbD i <;> rfl

theorem selectOps_eq : selectOps = uint2Ops := by
  have hchi : chiSelect = uint2Ops.chi := by
    funext a b c
    exact chiSelect_eq a b c
  rw [selectOps, hchi]

/-- How far a rotation goes. -/
def Rotl64.amount : Rotl64 → ℕ
  | .one y => y
  | .two y => y + 32

/-- The second arguments of the macros are between 1 and 31. -/
def Rotl64.InRange : Rotl64 → Prop
  | .one y => 0 < y ∧ y < 32
  | .two y => 0 < y ∧ y < 32

theorem Rotl64.apply_eq (mediaOps : Bool) {r : Rotl64} (h : r.InRange) : r.apply mediaOps = Uint2.rotl r.amount := by
  funext x
  cases r with
  | one y => exact rotl64_1_eq mediaOps x h.1 h.2
  | two y => exact rotl64_2_eq mediaOps x h.1 h.2

theorem rndMoves_inRange : ∀ m ∈ rndMoves, m.rot.InRange := by
  unfold rndMoves
  simp [Rotl64.InRange]

end Operations

section Rounds

variable (mediaOps : Bool)

theorem rotl64_1_one (x : Uint2) : rotl64_1 mediaOps x 1 = uint2Ops.rotl 1 x :=
  rotl64_1_eq mediaOps x Nat.one_pos (by decide)

/-- Theta, with lane 1 left for `tmp`. -/
theorem rndTheta_eq (a : Fin 25 → Uint2) :
    rndTheta mediaOps a = Function.update (KeccakF.theta uint2Ops a) 1 (a 1) := by
  unfold rndTheta m0 m1 m2 m3 m4
  simp only [rotl64_1_one]
  funext j
  fin_cases j <;> rfl

theorem tmp_eq (a : Fin 25 → Uint2) : a 1 ^^^ m0 mediaOps a = KeccakF.theta uint2Ops a 1 := by
  unfold m0
  simp only [rotl64_1_one]
  rfl

/-- The chain of overwrites of the macro is the one of rho and pi. -/
theorem moves_rndMoves (a : Fin 25 → Uint2) :
    KeccakF.moves (Rotl64.apply mediaOps) rndMoves a = KeccakF.moves uint2Ops.rotl KeccakF.rhoPiMoves a :=
  KeccakF.moves_map Rotl64.amount (fun m hm => Rotl64.apply_eq mediaOps (rndMoves_inRange m hm)) a

/-- Chi and iota on the lanes of the output. -/
theorem rndChi_lane (o : KeccakF.LaneOps Uint2) (rc : Uint2) (outsz : ℕ) (a : Fin 25 → Uint2) {j : Fin 25}
    (hj : j.val < outsz) : rndChi o rc outsz a j = KeccakF.iota o rc (KeccakF.chi o a) j := by
  unfold rndChi
  rcases Nat.lt_or_ge 1 outsz with h1 | h1
  · rw [if_pos h1]
    rcases Nat.lt_or_ge 4 outsz with h4 | h4
    · rw [if_pos h4]
      rcases Nat.lt_or_ge 8 outsz with h8 | h8
      · rw [if_pos h8]
        fin_cases j <;> rfl
      · rw [if_neg (Nat.not_lt.2 h8)]
        obtain ⟨i, rfl⟩ : ∃ i : Fin 8, j = i.castLE (by decide) := ⟨⟨j, by omega⟩, rfl⟩
        fin_cases i <;> rfl
    · rw [if_neg (Nat.not_lt.2 h4)]
      obtain ⟨i, rfl⟩ : ∃ i : Fin 4, j = i.castLE (by decide) := ⟨⟨j, by omega⟩, rfl⟩
      fin_cases i <;> rfl
  · rw [if_neg (Nat.not_lt.2 h1)]
    obtain rfl : j = 0 := Fin.ext (by simp only [Fin.val_zero]; omega)
    rfl

/-- **A round of the macro** is a round of Keccak-f on the lanes of its output. -/
theorem keccakf1600Rnd_lane (i outsz : ℕ) (a : Fin 25 → Uint2) {j : Fin 25} (hj : j.val < outsz) :
    keccakf1600Rnd mediaOps i outsz a j = KeccakF.round uint2Ops (rcLane i) a j := by
  unfold keccakf1600Rnd
  rw [rndChi_lane _ _ _ _ hj, selectOps_eq, tmp_eq, rotl64_1_one, moves_rndMoves, rndTheta_eq,
    KeccakF.update_moves_eq_rhoPi]
  rfl

/-- The rounds before the last one are whole. -/
theorem keccakf1600Rnd_eq (i : ℕ) (a : Fin 25 → Uint2) :
    keccakf1600Rnd mediaOps i 25 a = KeccakF.round uint2Ops (rcLane i) a := by
  funext j
  exact keccakf1600Rnd_lane mediaOps i 25 a j.isLt

theorem asUlong_rcLane : ∀ i < 24, asUlong (rcLane i) = roundConstant i := by decide

/-- **`KECCAK_PROCESS` is the permutation of the CPU code** on the lanes of its output, for any
`out_size`. -/
theorem keccakProcess_lane (st : Fin 25 → Uint2) (outSize : ℕ) (j : Fin 25) (hj : j.val < outSize) :
    asUlong (keccakProcess mediaOps st outSize j) = keccakf1600 (fun i => asUlong (st i)) j := by
  have hwhole : forLoop (fun r => keccakf1600Rnd mediaOps r (if r < 23 then 25 else outSize)) 23 st =
      KeccakF.rounds uint2Ops rcLane 23 st := by
    refine forLoop_inv (fun i s => s = KeccakF.rounds uint2Ops rcLane i st) rfl ?_
    intro i hi s hs
    rw [if_pos hi, keccakf1600Rnd_eq, hs]
    rfl
  have hlast : keccakProcess mediaOps st outSize j = KeccakF.rounds uint2Ops rcLane 24 st j := by
    change keccakf1600Rnd mediaOps 23 outSize (forLoop _ 23 st) j = _
    rw [hwhole, keccakf1600Rnd_lane mediaOps 23 outSize _ hj]
    rfl
  rw [hlast, keccakf1600_eq_rounds, ← asUlong_rounds asUlong_hom asUlong_rcLane]

/-- `KECCAK_PROCESS`, as the kernels use it. -/
def clKeccak : KeccakProcess keccakf1600 where
  run := keccakProcess mediaOps
  run_lane := keccakProcess_lane mediaOps

/-- **The OpenCL Keccak is the one of the CPU code.**  `KECCAK_PROCESS` leaves the lanes of
`keccakf1600` below its output size, `SHA3_512` is `ethash_keccak512_64`, and from the two states of
`search` come Keccak-512 of the header and the nonce and the first word of Keccak-256 of the twelve
lanes of seed and mix. -/
theorem opencl_keccak_agrees :
    (∀ (st : Fin 25 → Uint2) (outSize : ℕ) (j : Fin 25), j.val < outSize →
      asUlong (keccakProcess mediaOps st outSize j) = keccakf1600 (fun i => asUlong (st i)) j) ∧
    (∀ s : Hash 16, sha3512 (clKeccak mediaOps) s = keccak512 keccakf1600 (bytes s)) ∧
    (∀ (header : Hash 8) (nonce : BitVec 64),
      HoldsSeed (fun i => keccakProcess mediaOps (initState header nonce) 8 (i.castLE eight_le_twentyFive))
        (keccak512 keccakf1600 (bytes header ++ leBytes 8 nonce.toNat))) ∧
    ∀ s : Fin 12 → Uint2,
      asUlong (keccakProcess mediaOps (finalState s) 1 0) =
        firstWord64 (keccak256 keccakf1600 (wordBytes (List.ofFn fun i => asUlong (s i)))) := by
  refine ⟨keccakProcess_lane mediaOps, sha3512_eq (clKeccak mediaOps), fun header nonce => ?_, fun s => ?_⟩
  · exact (clKeccak mediaOps).run_initState header nonce
  · exact (clKeccak mediaOps).run_finalState_lane s

end Rounds

end OpenCL
end EtcMiner
