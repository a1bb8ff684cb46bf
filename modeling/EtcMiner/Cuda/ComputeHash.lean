/-
# The CUDA hash kernel

`compute_hash` in `libcuda/dagger_shuffled.cuh`.  Eight threads of a warp run in
lock step and hash eight nonces in two passes of four.  In a pass thread `t` holds
the words `4 * t, …, 4 * t + 3` of the mixes of four nonces; at the access `a + b`
the item index is the one thread `bfe(a, 2, 3)` computes, which holds the word
`a + b` of the mix, and every thread reads it with `SHFL`.

The invariant over the accesses is that of `hash_kernel`, word by word
(`accesses_spec`), so after the two passes every thread holds the mix hash of its
own nonce, and `compute_hash` returns `false` exactly on a solution
(`computeHash_agrees`).
-/

import EtcMiner.Gpu.Types

namespace EtcMiner
namespace Cuda

open Lib Ethash Gpu

/-- `__byte_perm(x, y, s)`: byte `i` of the result is the byte of `x` and `y` that
digit `i` of `s` selects. -/
def bytePerm (x y : BitVec 32) (s : ℕ) : BitVec 32 :=
  BitVec.ofNat 32 (leValue ((List.range 4).map fun i =>
    (leBytes 4 x.toNat ++ leBytes 4 y.toNat).getD (s / 16 ^ i % 8) 0))

/-- `cuda_swab64`. -/
def cudaSwab64 (x : BitVec 64) : BitVec 64 :=
  join (bytePerm (word32 x 1) 0 0x0123) (bytePerm (word32 x 0) 0 0x0123)

theorem bytePerm_reverse (x : BitVec 32) :
    bytePerm x 0 0x0123 = BitVec.ofNat 32 (leValue (leBytes 4 x.toNat).reverse) := by
  simp [bytePerm, leBytes, List.range_succ]

/-- `cuda_swab64` swaps the bytes of a word. -/
theorem cudaSwab64_eq (x : BitVec 64) : cudaSwab64 x = swapBytes x := by
  have hbytes : leBytes 8 x.toNat = leBytes 4 (word32 x 0).toNat ++ leBytes 4 (word32 x 1).toNat := by
    rw [leBytes_join, join_word32]
  have hlo := leValue_lt (leBytes 4 (word32 x 0).toNat).reverse
  have hhi := leValue_lt (leBytes 4 (word32 x 1).toNat).reverse
  apply BitVec.eq_of_toNat_eq
  rw [cudaSwab64, bytePerm_reverse, bytePerm_reverse, toNat_join, swapBytes, hbytes,
    List.reverse_append, leValue_append]
  simp only [List.length_reverse, leBytes_length, BitVec.toNat_ofNat] at hlo hhi ⊢
  omega

/-- `bfe.u32`: the `numBits` bits of `x` from `bit` on. -/
def bfe (x bit numBits : ℕ) : ℕ := (x >>> bit) % 2 ^ numBits

/-- `SHFL(v, lane, 8)`: every thread of the group reads `v` of one of them. -/
def shfl {α : Type*} (v : Fin 8 → α) (lane : ℕ) : Fin 8 → α := fun _ => v (Fin.ofNat 8 lane)

/-- `vectorize2`. -/
def vectorize2 (x y : Uint2) : Fin 4 → BitVec 32 := ![x.x, x.y, y.x, y.y]

/-- `fnv4`. -/
def fnv4 (a b : Fin 4 → BitVec 32) : Fin 4 → BitVec 32 := fun k => a k * fnvPrime ^^^ b k

/-- The constants of the device: `d_header`, `d_target`, `d_dag_size` and `d_dag`. -/
structure Constants where
  header : Hash 8
  target : BitVec 64
  dagSize : BitVec 32
  dag : ℕ → Hash 32

/-- The registers of a group in one pass: `mix[p]` and `init0[p]` of every thread. -/
structure Regs where
  mix : Fin 4 → Fin 8 → Fin 4 → BitVec 32
  init0 : Fin 4 → Fin 8 → BitVec 32

section Kernel

variable {keccakf : State → State} (kp : KeccakProcess keccakf) (c : Constants)

/-- `keccak_f1600_init`. -/
def keccakF1600Init (nonce : BitVec 64) : Fin 12 → Uint2 :=
  firstLanes (kp.run (initState c.header nonce) 8)

/-- `keccak_f1600_final`. -/
def keccakF1600Final (state : Fin 12 → Uint2) : BitVec 64 :=
  asUlong (kp.run (finalState state) 1 0)

/-- `shuffle[j]` for the nonce of thread `i + p`, in thread `t`. -/
def shuffle (i : ℕ) (state : Fin 8 → Fin 12 → Uint2) (p : Fin 4) (t j : Fin 8) : Uint2 :=
  ⟨shfl (fun u => (state u (j.castLE eight_le_twelve)).x) (i + p) t,
    shfl (fun u => (state u (j.castLE eight_le_twelve)).y) (i + p) t⟩

/-- "share init among threads". -/
def shareInit (i : ℕ) (state : Fin 8 → Fin 12 → Uint2) : Regs where
  mix p t :=
    match t.val % 4 with
    | 0 => vectorize2 (shuffle i state p t 0) (shuffle i state p t 1)
    | 1 => vectorize2 (shuffle i state p t 2) (shuffle i state p t 3)
    | 2 => vectorize2 (shuffle i state p t 4) (shuffle i state p t 5)
    | _ => vectorize2 (shuffle i state p t 6) (shuffle i state p t 7)
  init0 p := shfl (fun t => (shuffle i state p t 0).x) 0

/-- `offset[p]` before the shuffle, in thread `t`. -/
def offset (a b : ℕ) (r : Regs) (p : Fin 4) (t : Fin 8) : BitVec 32 :=
  fnv1 (r.init0 p t ^^^ BitVec.ofNat 32 (a + b)) (r.mix p t (Fin.ofNat 4 b)) % c.dagSize

/-- The body of the loop over `b`, for the four `p` at once. -/
def mixStep (a b : ℕ) (r : Regs) : Regs :=
  { r with
    mix := fun p t =>
      let item := c.dag (shfl (offset c a b r p) (bfe a 2 3) t).toNat
      fnv4 (r.mix p t) fun k => item (Fin.ofNat 32 (4 * t + k)) }

/-- `for (a = 0; a < ACCESSES; a += 4) for (b = 0; b < 4; b++) …`. -/
def accesses (r : Regs) : Regs := forLoop (fun q => forLoop (fun b => mixStep c (4 * q) b) 4) 16 r

/-- `thread_mix` of the nonce `p`, in thread `t`. -/
def threadMix (r : Regs) (p : Fin 4) (t : Fin 8) : BitVec 32 :=
  fnvReduce (r.mix p t 0) (r.mix p t 1) (r.mix p t 2) (r.mix p t 3)

/-- "update mix across threads", for the nonce `p`. -/
def moveMix (i : ℕ) (r : Regs) (p : Fin 4) (state : Fin 8 → Fin 12 → Uint2) :
    Fin 8 → Fin 12 → Uint2 := fun t j =>
  if i + p.val = t.val ∧ 8 ≤ j.val then
    ⟨shfl (threadMix r p) (2 * (j - 8)) t, shfl (threadMix r p) (2 * (j - 8) + 1) t⟩
  else state t j

/-- One pass, over the nonces of the threads `i, …, i + 3`. -/
def pass (i : ℕ) (state : Fin 8 → Fin 12 → Uint2) : Fin 8 → Fin 12 → Uint2 :=
  let r := accesses c (shareInit i state)
  forLoop (fun p => moveMix i r (Fin.ofNat 4 p)) 4 state

/-- The `state` of every thread before the final Keccak. -/
def computeMix (nonce : Fin 8 → BitVec 64) : Fin 8 → Fin 12 → Uint2 :=
  forLoop (fun q => pass c (4 * q)) 2 fun t => keccakF1600Init kp c (nonce t)

/-- `compute_hash` of every thread of a group, on the nonces of its threads. -/
def computeHash (nonce : Fin 8 → BitVec 64) (t : Fin 8) : Bool :=
  decide (cudaSwab64 (keccakF1600Final kp (computeMix kp c nonce t)) > c.target)

/-- After the accesses `0, …, i - 1` of `hash_kernel` for the four seeds of a pass:
every thread holds its four words of each mix. -/
def MixInv (seed : Fin 4 → Hash 16) (i : ℕ) (r : Regs) : Prop :=
  ∀ p t, r.init0 p t = seed p 0 ∧ ∀ k : Fin 4, r.mix p t k =
    mixAfter c.dagSize (fun q => c.dag q.toNat) (seed p) i (Fin.ofNat 32 (4 * t + k))

theorem shareInit_mixInv {i : ℕ} {state : Fin 8 → Fin 12 → Uint2} {seed : Fin 8 → Hash 16}
    (h : ∀ t, HoldsSeed (fun j => state t (j.castLE eight_le_twelve)) (seed t)) :
    MixInv c (fun p => seed (Fin.ofNat 8 (i + p))) 0 (shareInit i state) := by
  intro p t
  have hshuffle : ∀ u j, shuffle i state p u j =
      ⟨seed (Fin.ofNat 8 (i + p)) ⟨2 * j, by omega⟩, seed (Fin.ofNat 8 (i + p)) ⟨2 * j + 1, by omega⟩⟩ :=
    fun u j => h (Fin.ofNat 8 (i + p)) j
  refine ⟨?_, fun k => ?_⟩
  · simp only [shareInit, shfl, hshuffle]
    rfl
  · simp only [shareInit, hshuffle, mixAfter, forLoop_zero, mixInit]
    fin_cases t <;> fin_cases k <;> rfl

/-- **One access:** the body of the loop over `b` at `a = 4 * q` is the access
`4 * q + b` of `hash_kernel`, in every thread and for the four nonces. -/
theorem mixStep_mixInv {seed : Fin 4 → Hash 16} {q b : ℕ} (hb : b < 4) {r : Regs}
    (h : MixInv c seed (4 * q + b) r) : MixInv c seed (4 * q + b + 1) (mixStep c (4 * q) b r) := by
  intro p t
  refine ⟨(h p t).1, fun k => ?_⟩
  have hlane : bfe (4 * q) 2 3 = q % 8 := by
    rw [bfe, Nat.shiftRight_eq_div_pow]
    omega
  have hword : Fin.ofNat 32 (4 * (Fin.ofNat 8 (q % 8)).val + (Fin.ofNat 4 b).val) =
      Fin.ofNat 32 (4 * q + b) := by
    refine Fin.ext ?_
    simp only [Fin.ofNat]
    omega
  have hoffset : offset c (4 * q) b r p (Fin.ofNat 8 (q % 8)) =
      fnv1 (BitVec.ofNat 32 (4 * q + b) ^^^ seed p 0)
        (mixAfter c.dagSize (fun q => c.dag q.toNat) (seed p) (4 * q + b)
          (Fin.ofNat 32 (4 * q + b))) % c.dagSize := by
    rw [offset, (h p _).1, (h p _).2, hword, BitVec.xor_comm]
  simp only [mixStep, fnv4, shfl, hlane]
  rw [hoffset, (h p t).2 k]
  rfl

/-- **The accesses of a pass** are the 64 accesses of `hash_kernel`, for the four
seeds of the pass at once. -/
theorem accesses_spec {seed : Fin 4 → Hash 16} {r : Regs} (h : MixInv c seed 0 r) :
    MixInv c seed numDatasetAccesses (accesses c r) := by
  refine forLoop_inv (fun q r' => MixInv c seed (4 * q) r') h ?_
  intro q _ r₁ hr₁
  refine forLoop_inv (fun b r' => MixInv c seed (4 * q + b) r') hr₁ ?_
  intro b hb r₂ hr₂
  exact mixStep_mixInv c hb hr₂

/-- Thread `t` reduces its four words to word `t` of the mix hash. -/
theorem threadMix_eq {seed : Fin 4 → Hash 16} {r : Regs} (h : MixInv c seed numDatasetAccesses r)
    (p : Fin 4) (t : Fin 8) :
    threadMix r p t = hashKernel c.dagSize (fun q => c.dag q.toNat) (seed p) t := by
  rw [threadMix, (h p t).2, (h p t).2, (h p t).2, (h p t).2]
  rfl

/-- `hash_kernel` of a nonce. -/
def mixHashOf (keccakf : State → State) (nonce : BitVec 64) : Hash 8 :=
  hashKernel c.dagSize (fun q => c.dag q.toNat) (hashSeed keccakf c.header nonce)

/-- Every thread holds its own seed, and the threads below `n` hold their own mix
hash. -/
def StateInv (keccakf : State → State) (nonce : Fin 8 → BitVec 64) (n : ℕ)
    (state : Fin 8 → Fin 12 → Uint2) : Prop :=
  ∀ t : Fin 8, HoldsSeed (fun j => state t (j.castLE eight_le_twelve)) (hashSeed keccakf c.header (nonce t)) ∧
    (t.val < n → ∀ j : Fin 4, state t ⟨8 + j, eight_add_lt_twelve j⟩ = uint2s (mixHashOf c keccakf (nonce t)) j)

/-- **One nonce is finished:** thread `i + p` takes its mix hash. -/
theorem moveMix_stateInv {nonce : Fin 8 → BitVec 64} {i : ℕ} {p : Fin 4} {r : Regs}
    (hr : MixInv c (fun p => hashSeed keccakf c.header (nonce (Fin.ofNat 8 (i + p))))
      numDatasetAccesses r)
    {state : Fin 8 → Fin 12 → Uint2} (h : StateInv c keccakf nonce (i + p) state) :
    StateInv c keccakf nonce (i + p + 1) (moveMix i r p state) := by
  intro t
  refine ⟨fun j => ?_, fun hdone j => ?_⟩
  · simp only [moveMix, Fin.val_castLE]
    rw [if_neg (by omega)]
    exact (h t).1 j
  · by_cases hown : i + p.val = t.val
    · have hnonce : nonce (Fin.ofNat 8 (i + p)) = nonce t := by
        rw [hown, Fin.ofNat_val_eq_self]
      simp only [moveMix]
      rw [if_pos ⟨hown, by omega⟩, Nat.add_sub_cancel_left]
      simp only [shfl, threadMix_eq c hr, hnonce]
      fin_cases j <;> rfl
    · simp only [moveMix]
      rw [if_neg (by omega)]
      exact (h t).2 (by omega) j

/-- **One pass** finishes the nonces of four threads. -/
theorem pass_stateInv {nonce : Fin 8 → BitVec 64} {q : ℕ} {state : Fin 8 → Fin 12 → Uint2}
    (h : StateInv c keccakf nonce (4 * q) state) :
    StateInv c keccakf nonce (4 * (q + 1)) (pass c (4 * q) state) := by
  have hinit := shareInit_mixInv (i := 4 * q) c fun t => (h t).1
  have hmix := accesses_spec c hinit
  refine forLoop_inv (fun p st => StateInv c keccakf nonce (4 * q + p) st) h ?_
  intro p hp st hst
  have hval : (Fin.ofNat 4 p).val = p := Nat.mod_eq_of_lt hp
  have hstep := moveMix_stateInv c (p := Fin.ofNat 4 p) hmix (hval.symm ▸ hst)
  rwa [hval] at hstep

theorem computeMix_stateInv (nonce : Fin 8 → BitVec 64) :
    StateInv c keccakf nonce 8 (computeMix kp c nonce) := by
  unfold computeMix
  refine forLoop_inv (fun q st => StateInv c keccakf nonce (4 * q) st) (fun t => ⟨?_, ?_⟩) ?_
  · exact kp.run_initState c.header (nonce t)
  · exact fun h => absurd h (Nat.not_lt_zero _)
  · exact fun q _ st hst => pass_stateInv c hst

/-- **`compute_hash` agrees with the CPU code.**  Before the final Keccak every
thread of the group holds in `state[8..11]` the mix hash of its own nonce, and it
returns `false` exactly when the first 64 bits of the final hash are at most
`d_target`. -/
theorem computeHash_agrees (nonce : Fin 8 → BitVec 64) (t : Fin 8) :
    (∀ j : Fin 4, computeMix kp c nonce t ⟨8 + j, eight_add_lt_twelve j⟩ =
        uint2s (mixHashOf c keccakf (nonce t)) j) ∧
      (computeHash kp c nonce t = false ↔
        upper64 (hashFinal keccakf (hashSeed keccakf c.header (nonce t))
          (mixHashOf c keccakf (nonce t))) ≤ c.target.toNat) := by
  have hinv := computeMix_stateInv kp c nonce t
  unfold computeHash keccakF1600Final
  generalize computeMix kp c nonce t = s at hinv ⊢
  have hholds : Holds s (hashSeed keccakf c.header (nonce t)) (mixHashOf c keccakf (nonce t)) :=
    ⟨hinv.1, hinv.2 t.isLt⟩
  refine ⟨hholds.2, ?_⟩
  rw [decide_eq_false_iff_not, gt_iff_lt, BitVec.not_lt, BitVec.le_def, cudaSwab64_eq,
    kp.run_finalState hholds]

end Kernel

end Cuda
end EtcMiner
