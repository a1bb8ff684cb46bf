/-
# The vector types of the GPU kernels

A `uint2` is a 64-bit lane as a pair of 32-bit words, `x` the low one; `as_uint2`
and `as_ulong` of OpenCL, `vectorize` and `devectorize` of CUDA go back and forth.
A buffer of `uint2`s read as single words is `uints`.

`initState` and `finalState` are the two padded Keccak states both kernels build
by hand, lane by lane.  They are the states the CPU sponge permutes for a message
of 40 and of 96 bytes (`asUlong_initState`, `asUlong_finalState`).
-/

import EtcMiner.Ethash.Hash
import Mathlib.Data.Fin.VecNotation
import Mathlib.Data.Fintype.Basic
import Mathlib.Tactic.FinCases

namespace EtcMiner
namespace Gpu

open Lib Ethash

/-- The number of lanes of a seed and a mix hash, as an instance with a name for their indices to refer
to. -/
instance neZero_twelve : NeZero 12 := ⟨by decide⟩

/-- `uint2`. -/
structure Uint2 where
  x : BitVec 32
  y : BitVec 32
deriving DecidableEq

/-- `as_ulong`, `devectorize`. -/
def asUlong (v : Uint2) : BitVec 64 := join v.x v.y

/-- `as_uint2`, `vectorize`. -/
def asUint2 (w : BitVec 64) : Uint2 := ⟨word32 w 0, word32 w 1⟩

@[simp] theorem asUlong_asUint2 (w : BitVec 64) : asUlong (asUint2 w) = w := join_word32 w

@[simp] theorem asUint2_asUlong (v : Uint2) : asUint2 (asUlong v) = v := by
  simp [asUint2, asUlong]

/-- Word `i` of a buffer of `uint2`s. -/
def uints (buf : ℕ → Uint2) (i : ℕ) : BitVec 32 :=
  if i % 2 = 0 then (buf (i / 2)).x else (buf (i / 2)).y

/-- The eight `uint2`s of `buf` are the words of `seed`. -/
def HoldsSeed (buf : Fin 8 → Uint2) (seed : Hash 16) : Prop :=
  ∀ i : Fin 8, buf i = ⟨seed ⟨2 * i, by omega⟩, seed ⟨2 * i + 1, by omega⟩⟩

/-- The words of a buffer that holds a seed are the words of the seed. -/
theorem uints_of_holdsSeed {buf : ℕ → Uint2} {seed : Hash 16} (h : HoldsSeed (fun i => buf i) seed)
    {j : ℕ} (hj : j < 16) : uints buf j = seed ⟨j, hj⟩ := by
  have hpair := h ⟨j / 2, by omega⟩
  simp only at hpair
  unfold uints
  rw [hpair]
  split_ifs with heven
  · exact congrArg seed (Fin.ext (by simp only; omega))
  · exact congrArg seed (Fin.ext (by simp only; omega))

/-- The `uint2`s of a `hash256`. -/
def uint2s (h : Hash 8) (i : Fin 4) : Uint2 := ⟨h ⟨2 * i, by omega⟩, h ⟨2 * i + 1, by omega⟩⟩

/-- The state of `keccak_512(header .. nonce)`. -/
def initState (header : Hash 8) (nonce : BitVec 64) : Fin 25 → Uint2 :=
  ![uint2s header 0, uint2s header 1, uint2s header 2, uint2s header 3, asUint2 nonce,
    asUint2 0x0000000000000001, ⟨0, 0⟩, ⟨0, 0⟩, asUint2 0x8000000000000000, ⟨0, 0⟩,
    ⟨0, 0⟩, ⟨0, 0⟩, ⟨0, 0⟩, ⟨0, 0⟩, ⟨0, 0⟩, ⟨0, 0⟩, ⟨0, 0⟩, ⟨0, 0⟩, ⟨0, 0⟩, ⟨0, 0⟩,
    ⟨0, 0⟩, ⟨0, 0⟩, ⟨0, 0⟩, ⟨0, 0⟩, ⟨0, 0⟩]

/-- The state of `keccak_256(keccak_512(header..nonce) .. mix)`, from the twelve
lanes of the seed and the mix hash. -/
def finalState (s : Fin 12 → Uint2) : Fin 25 → Uint2 :=
  ![s 0, s 1, s 2, s 3, s 4, s 5, s 6, s 7, s 8, s 9, s 10, s 11,
    asUint2 0x0000000000000001, ⟨0, 0⟩, ⟨0, 0⟩, ⟨0, 0⟩, asUint2 0x8000000000000000,
    ⟨0, 0⟩, ⟨0, 0⟩, ⟨0, 0⟩, ⟨0, 0⟩, ⟨0, 0⟩, ⟨0, 0⟩, ⟨0, 0⟩, ⟨0, 0⟩]

theorem asUlong_initState (header : Hash 8) (nonce : BitVec 64) :
    (fun j => asUlong (initState header nonce j)) = padded 9 (lanes (m := 4) header ++ [nonce]) := by
  funext j
  fin_cases j <;>
    simp [initState, padded, lanes, uint2s, List.ofFn_succ] <;> rfl

theorem eight_le_twelve : 8 ≤ 12 := by decide

theorem eight_le_twentyFive : 8 ≤ 25 := by decide

theorem twelve_le_twentyFive : 12 ≤ 25 := by decide

theorem eight_add_lt_twelve (i : Fin 4) : 8 + i.val < 12 := by omega

theorem eight_add_lt_twentyFive (i : Fin 4) : 8 + i.val < 25 := by omega

/-- The twelve lanes of a state that the second permutation starts from. -/
def firstLanes (s : Fin 25 → Uint2) : Fin 12 → Uint2 := fun i => s (i.castLE twelve_le_twentyFive)

/-- Twelve lanes that hold a seed and a mix hash. -/
def Holds (s : Fin 12 → Uint2) (seed : Hash 16) (mixHash : Hash 8) : Prop :=
  HoldsSeed (fun i => s (i.castLE eight_le_twelve)) seed ∧
    ∀ i : Fin 4, s ⟨8 + i, eight_add_lt_twelve i⟩ = uint2s mixHash i

/-- The mix hash in the lanes `8, …, 11` of a whole state. -/
theorem Holds.mixHash_lane {s : Fin 25 → Uint2} {seed : Hash 16} {mixHash : Hash 8}
    (h : Holds (firstLanes s) seed mixHash) (i : Fin 4) :
    s ⟨8 + i, eight_add_lt_twentyFive i⟩ = uint2s mixHash i := h.2 i

/-- The second state, whatever its twelve lanes hold. -/
theorem asUlong_finalState (s : Fin 12 → Uint2) :
    (fun j => asUlong (finalState s j)) = padded 17 (List.ofFn fun i => asUlong (s i)) := by
  funext j
  fin_cases j <;>
    simp [finalState, padded, List.ofFn_succ] <;> rfl

/-- Twelve lanes that hold a seed and a mix hash are their words. -/
theorem Holds.ofFn_asUlong {s : Fin 12 → Uint2} {seed : Hash 16} {mixHash : Hash 8} (h : Holds s seed mixHash) :
    (List.ofFn fun i => asUlong (s i)) = lanes (m := 8) seed ++ lanes (m := 4) mixHash := by
  obtain ⟨hseed, hmix⟩ := h
  have hs : s = ![⟨seed 0, seed 1⟩, ⟨seed 2, seed 3⟩, ⟨seed 4, seed 5⟩, ⟨seed 6, seed 7⟩,
      ⟨seed 8, seed 9⟩, ⟨seed 10, seed 11⟩, ⟨seed 12, seed 13⟩, ⟨seed 14, seed 15⟩,
      uint2s mixHash 0, uint2s mixHash 1, uint2s mixHash 2, uint2s mixHash 3] := by
    funext j
    fin_cases j
    exacts [hseed 0, hseed 1, hseed 2, hseed 3, hseed 4, hseed 5, hseed 6, hseed 7,
      hmix 0, hmix 1, hmix 2, hmix 3]
  subst hs
  simp [lanes, List.ofFn_succ, asUlong, uint2s]

/-- `word64s[0]` of a `hash256`. -/
def firstWord64 (h : Hash 8) : BitVec 64 := join (h 0) (h 1)

theorem firstWord64_ofLanes (s : State) : firstWord64 (ofLanes 8 s) = s 0 := join_word32 (s 0)

/-- The bytes of a 64-bit word in the other order. -/
def swapBytes (w : BitVec 64) : BitVec 64 :=
  BitVec.ofNat 64 (leValue (leBytes 8 w.toNat).reverse)

/-- A GPU implementation of the permutation `keccakf`.  `run s outSize` computes
the lanes below `outSize`; what it leaves in the others is not specified, the
kernels skip that work in the last round. -/
structure KeccakProcess (keccakf : State → State) where
  run : (Fin 25 → Uint2) → ℕ → Fin 25 → Uint2
  run_lane : ∀ s outSize (j : Fin 25), j.val < outSize →
    asUlong (run s outSize j) = keccakf (fun i => asUlong (s i)) j

variable {keccakf : State → State} (kp : KeccakProcess keccakf)

/-- The lanes `0, …, 7` are the first words of the permuted state. -/
theorem KeccakProcess.run_holdsSeed (s : Fin 25 → Uint2) :
    HoldsSeed (fun i => kp.run s 8 (i.castLE eight_le_twentyFive)) (ofLanes 16 (keccakf fun j => asUlong (s j))) := by
  intro i
  have hlane := kp.run_lane s 8 (i.castLE eight_le_twentyFive) i.isLt
  simp only
  rw [← asUint2_asUlong (kp.run _ _ _), hlane, asUint2]
  rw [ofLanes_two_mul _ ⟨i, by omega⟩, ofLanes_two_mul_add_one _ ⟨i, by omega⟩]
  rfl

/-- The first permutation leaves the seed in the lanes `0, …, 7`. -/
theorem KeccakProcess.run_initState (header : Hash 8) (nonce : BitVec 64) :
    HoldsSeed (fun i => kp.run (initState header nonce) 8 (i.castLE eight_le_twentyFive))
      (hashSeed keccakf header nonce) := by
  rw [hashSeed_eq, ← asUlong_initState]
  exact kp.run_holdsSeed (initState header nonce)

/-- The second permutation leaves the first word of the hash of its twelve lanes in lane `0`. -/
theorem KeccakProcess.run_finalState_lane (s : Fin 12 → Uint2) :
    asUlong (kp.run (finalState s) 1 0) =
      firstWord64 (keccak256 keccakf (wordBytes (List.ofFn fun i => asUlong (s i)))) := by
  rw [kp.run_lane _ _ _ Nat.one_pos, asUlong_finalState, keccak256, firstWord64_ofLanes,
    keccak_wordBytes _ _ _ (by simp)]

/-- The second permutation leaves the start of the final hash in lane `0`. -/
theorem KeccakProcess.run_finalState {s : Fin 12 → Uint2} {seed : Hash 16} {mixHash : Hash 8}
    (h : Holds s seed mixHash) :
    (swapBytes (asUlong (kp.run (finalState s) 1 0))).toNat =
      upper64 (hashFinal keccakf seed mixHash) := by
  rw [kp.run_lane _ _ _ Nat.one_pos, asUlong_finalState, h.ofFn_asUlong, hashFinal_eq, upper64_ofLanes, swapBytes,
    BitVec.toNat_ofNat]
  have hlt := leValue_lt (leBytes 8 (keccakf (padded 17 (lanes (m := 8) seed ++
    lanes (m := 4) mixHash)) 0).toNat).reverse
  rw [List.length_reverse, leBytes_length] at hlt
  exact Nat.mod_eq_of_lt hlt

end Gpu
end EtcMiner
