/-
# The OpenCL search kernel

`search` and `MIX` in `libcl/ethash.cl`.  A work-group of `WORKSIZE` items runs in
lock step; item `l` is lane `l % 4` of the hash `l / 4`.  The four lanes of a hash
serve its four owners in turn: the owner `tid` lends its seed through the share
buffer, every lane takes eight of the 32 mix words, and at each access the lane
`a / 8 % 4`, which holds word `a + x` of the mix, lends the item index through
`buffer`.  At the end the lanes leave two words of the mix hash each in the share
buffer and the owner collects them.

The invariant over the accesses is that lane `l` holds the words
`8 * (l % 4), …, 8 * (l % 4) + 7` of the mix of `hash_kernel` for the owner's seed
(`accesses_spec`).  So every item ends with the mix hash of its own nonce, and the
comparison with `target` is the one of the CPU code (`search_agrees`).

The run modelled is one in which no item sees `abort` set.
-/

import EtcMiner.Gpu.Types
import EtcMiner.Lib.Lockstep

namespace EtcMiner
namespace OpenCL

open Lib Ethash Gpu

/-- The DAG buffers of a build: one, or with `SPLIT_DAG` two. -/
structure Dag where
  splitDag : Bool
  gDag0 : ℕ → Hash 32
  gDag1 : ℕ → Hash 32

/-- The item `MIX` reads for the index `idx`: `g_dag[idx]`, or with `SPLIT_DAG`
`_g_dag2[idx & 1][idx >> 1]`. -/
def Dag.item (d : Dag) (idx : BitVec 32) : Hash 32 :=
  if d.splitDag then
    (if idx &&& 1 = 0 then d.gDag0 else d.gDag1) (idx >>> 1).toNat
  else d.gDag0 idx.toNat

/-- The buffers hold the first `n` items of `dataset`, with `SPLIT_DAG` the even
ones in the first buffer and the odd ones in the second. -/
def Dag.Holds (d : Dag) (n : ℕ) (dataset : ℕ → Hash 32) : Prop :=
  if d.splitDag then
    (∀ i, 2 * i < n → d.gDag0 i = dataset (2 * i)) ∧
      ∀ i, 2 * i + 1 < n → d.gDag1 i = dataset (2 * i + 1)
  else ∀ i < n, d.gDag0 i = dataset i

/-- Both builds read the dataset. -/
theorem Dag.Holds.item_eq {d : Dag} {n : ℕ} {dataset : ℕ → Hash 32} (h : d.Holds n dataset)
    {idx : BitVec 32} (hidx : idx.toNat < n) : d.item idx = dataset idx.toNat := by
  unfold Dag.Holds at h
  unfold Dag.item
  have hshift : (idx >>> 1).toNat = idx.toNat / 2 := by
    simp [Nat.shiftRight_eq_div_pow]
  have hand : idx &&& 1 = 0 ↔ idx.toNat % 2 = 0 := by
    rw [← BitVec.toNat_inj]
    simp
  split_ifs at h ⊢ with hsplit heven
  · rw [hand] at heven
    rw [hshift, h.1 _ (by omega), Nat.mul_div_cancel' (Nat.dvd_of_mod_eq_zero heven)]
  · rw [hand] at heven
    rw [hshift, h.2 _ (by omega)]
    congr 1
    omega
  · exact h _ hidx

/-- One launch of `search` over a dataset: the constants of the build, the
arguments, and the number of work-groups.  A launch has at most `2 ^ 32` items,
`batch_blocks` of the host being a `uint32_t`. -/
structure Launch (dataset : ℕ → Hash 32) where
  worksize : ℕ
  worksize_pos : 0 < worksize
  four_dvd : 4 ∣ worksize
  groups : ℕ
  global_le : groups * worksize ≤ 2 ^ 32
  header : Hash 8
  startNonce : BitVec 64
  target : BitVec 64
  dagSize : BitVec 32
  dagSize_pos : 0 < dagSize.toNat
  dag : Dag
  dag_holds : dag.Holds dagSize.toNat dataset

/-- The memory of a work-group: `sharebuf[hash_id].uint2s[i]` and `buffer`, shared,
and of every item its `state`, `init0` and `mix`. -/
structure Group where
  sharebuf : ℕ × ℕ → Uint2
  buffer : ℕ → BitVec 32
  state : ℕ → Fin 25 → Uint2
  init0 : ℕ → BitVec 32
  mix : ℕ → Fin 8 → BitVec 32

section Kernel

variable {keccakf : State → State} (kp : KeccakProcess keccakf)
variable {dataset : ℕ → Hash 32} (L : Launch dataset)

/-- `share->uint2s[i] = state[i]` for `i < 8`, by the owner `tid` of every hash. -/
def lendSeed (tid : ℕ) (g : Group) : Group :=
  { g with
    sharebuf := scatter L.worksize (fun l =>
      if tid = l % 4 then (List.finRange 8).map fun i => ((l / 4, i.val), g.state l (i.castLE eight_le_twentyFive))
      else []) g.sharebuf }

/-- `mix = share->uint8s[thread_id & 1]; init0 = share->uints[0]`. -/
def takeSeed (g : Group) : Group :=
  { g with
    mix := fun l k => uints (fun i => g.sharebuf (l / 4, i)) (8 * (l % 4 &&& 1) + k)
    init0 := fun l => uints (fun i => g.sharebuf (l / 4, i)) 0 }

/-- `MIX(x)` in the iteration `a` of the loop over the accesses. -/
def mixStep (a x : ℕ) (g : Group) : Group :=
  let buffer := scatter L.worksize (fun l =>
    [(l, fnv1 (g.init0 l ^^^ BitVec.ofNat 32 (a + x)) (g.mix l (Fin.ofNat 8 x)) % L.dagSize)]) g.buffer
  { g with
    buffer := buffer
    mix := fun l k =>
      fnv1 (g.mix l k) (L.dag.item (buffer (4 * (l / 4) + a / 8 % 4)) (Fin.ofNat 32 (8 * (l % 4) + k))) }

/-- `for (a = 0; a < ACCESSES; a += 8) for (x = 0; x < 8; ++x) MIX(x)`. -/
def accesses (g : Group) : Group :=
  forLoop (fun q => forLoop (fun x => mixStep L (8 * q) x) 8) 8 g

/-- `(uint2)(fnv_reduce(mix.lo), fnv_reduce(mix.hi))`. -/
def reduceMix (mix : Fin 8 → BitVec 32) : Uint2 :=
  ⟨fnvReduce (mix 0) (mix 1) (mix 2) (mix 3), fnvReduce (mix 4) (mix 5) (mix 6) (mix 7)⟩

/-- `share->uint2s[thread_id] = (uint2)(fnv_reduce(mix.lo), fnv_reduce(mix.hi))`. -/
def lendMixHash (g : Group) : Group :=
  { g with
    sharebuf := scatter L.worksize (fun l => [((l / 4, l % 4), reduceMix (g.mix l))]) g.sharebuf }

/-- `state[8 + i] = share->uint2s[i]` for `i < 4`, by the owner `tid` of every hash. -/
def takeMixHash (tid : ℕ) (g : Group) : Group :=
  { g with
    state := fun l j =>
      if tid = l % 4 ∧ 8 ≤ j.val ∧ j.val < 12 then g.sharebuf (l / 4, j - 8) else g.state l j }

/-- One iteration of the loop over the owners. -/
def serveOwner (tid : ℕ) (g : Group) : Group :=
  takeMixHash tid (lendMixHash L (accesses L (takeSeed (lendSeed L tid g))))

/-- `gid`, the global id of item `l` of the work-group `group`. -/
def gid (group l : ℕ) : BitVec 32 := BitVec.ofNat 32 (group * L.worksize + l)

/-- The memory of a work-group when the loop over the owners ends, from any
initial contents `g`. -/
def searchMix (group : ℕ) (g : Group) : Group :=
  forLoop (serveOwner L) 4
    { g with state := fun l => kp.run (initState L.header (L.startNonce + (gid L group l).setWidth 64)) 8 }

/-- `state` of item `l` after the second pass. -/
def searchFinal (group : ℕ) (g : Group) (l : ℕ) : Fin 25 → Uint2 :=
  kp.run (finalState (firstLanes ((searchMix kp L group g).state l))) 1

/-- The condition of the solution branch, `as_ulong(as_uchar8(state[0]).s76543210) <= target`. -/
def isSolution (group : ℕ) (g : Group) (l : ℕ) : Bool :=
  decide (swapBytes (asUlong (searchFinal kp L group g l 0)) ≤ L.target)

/-- The owner `tid` lends its seed to the hash of item `l`. -/
theorem lendSeed_sharebuf {tid l : ℕ} (htid : tid < 4) (hl : l < L.worksize) (g : Group) (i : Fin 8) :
    (lendSeed L tid g).sharebuf (l / 4, i) = g.state (4 * (l / 4) + tid) (i.castLE eight_le_twentyFive) := by
  obtain ⟨m, hm⟩ := L.four_dvd
  refine scatter_of_mem g.sharebuf (l := 4 * (l / 4) + tid) (by omega) ?_ ?_
  · have hid : tid = (4 * (l / 4) + tid) % 4 := by omega
    rw [if_pos hid]
    refine List.mem_map.2 ⟨i, List.mem_finRange i, ?_⟩
    rw [show (4 * (l / 4) + tid) / 4 = l / 4 by omega]
  · intro l' hl' b hb
    split_ifs at hb with hid
    · obtain ⟨j, -, hj⟩ := List.mem_map.1 hb
      simp only [Prod.mk.injEq] at hj
      obtain ⟨⟨hhash, hij⟩, rfl⟩ := hj
      obtain rfl : j = i := Fin.ext hij
      rw [show l' = 4 * (l / 4) + tid by omega]
    · exact absurd hb List.not_mem_nil

/-- After the accesses `0, …, i - 1` of `hash_kernel` for the seeds `seed`, one for
each hash: every lane holds its eight words of the mix. -/
def MixInv (seed : ℕ → Hash 16) (i : ℕ) (g : Group) : Prop :=
  ∀ l < L.worksize, g.init0 l = seed (l / 4) 0 ∧
    ∀ k : Fin 8, g.mix l k =
      mixAfter L.dagSize (fun p => dataset p.toNat) (seed (l / 4)) i (Fin.ofNat 32 (8 * (l % 4) + k))

theorem takeSeed_mixInv {seed : ℕ → Hash 16} {g : Group}
    (h : ∀ l < L.worksize, HoldsSeed (fun i => g.sharebuf (l / 4, i)) (seed (l / 4))) :
    MixInv L seed 0 (takeSeed g) := by
  intro l hl
  have hword : ∀ {j : ℕ} (hj : j < 16), uints (fun i => g.sharebuf (l / 4, i)) j = seed (l / 4) ⟨j, hj⟩ :=
    uints_of_holdsSeed (h l hl)
  refine ⟨hword (j := 0) (by omega), fun k => ?_⟩
  have hk : 8 * (l % 4 &&& 1) + k < 16 := by
    rw [Nat.and_one_is_mod]
    omega
  refine (hword hk).trans (congrArg (seed (l / 4)) (Fin.ext ?_))
  simp only [Fin.ofNat, Nat.and_one_is_mod]
  omega

/-- **One access:** `MIX(x)` at `a = 8 * q` is the access `8 * q + x` of
`hash_kernel`, in every lane. -/
theorem mixStep_mixInv {seed : ℕ → Hash 16} {q x : ℕ} (hx : x < 8) {g : Group}
    (h : MixInv L seed (8 * q + x) g) : MixInv L seed (8 * q + x + 1) (mixStep L (8 * q) x g) := by
  obtain ⟨m, hm⟩ := L.four_dvd
  intro l hl
  refine ⟨(h l hl).1, fun k => ?_⟩
  set lane := 4 * (l / 4) + 8 * q / 8 % 4 with hlane
  have hlane_lt : lane < L.worksize := by omega
  have hhash : lane / 4 = l / 4 := by omega
  set p := fnv1 (g.init0 lane ^^^ BitVec.ofNat 32 (8 * q + x)) (g.mix lane (Fin.ofNat 8 x)) % L.dagSize
    with hp
  have hbuffer : scatter L.worksize (fun l => [(l, fnv1 (g.init0 l ^^^ BitVec.ofNat 32 (8 * q + x))
      (g.mix l (Fin.ofNat 8 x)) % L.dagSize)]) g.buffer lane = p := by
    refine scatter_of_mem g.buffer hlane_lt (List.mem_singleton.2 rfl) fun l' _ b hb => ?_
    obtain ⟨rfl, rfl⟩ := Prod.mk.inj (List.mem_singleton.1 hb)
    exact hp.symm
  have hp_lt : p.toNat < L.dagSize.toNat := by
    rw [hp, BitVec.toNat_umod]
    exact Nat.mod_lt _ L.dagSize_pos
  have hword : Fin.ofNat 32 (8 * (lane % 4) + (Fin.ofNat 8 x).val) = Fin.ofNat 32 (8 * q + x) := by
    apply Fin.ext
    simp only [Fin.ofNat]
    omega
  have hindex : p = fnv1 (BitVec.ofNat 32 (8 * q + x) ^^^ seed (l / 4) 0)
      (mixAfter L.dagSize (fun p => dataset p.toNat) (seed (l / 4)) (8 * q + x)
        (Fin.ofNat 32 (8 * q + x))) % L.dagSize := by
    rw [hp, (h lane hlane_lt).1, (h lane hlane_lt).2, hhash, hword, BitVec.xor_comm]
  simp only [mixStep]
  rw [hbuffer, L.dag_holds.item_eq hp_lt, (h l hl).2 k, hindex]
  rfl

theorem lendSeed_state (tid : ℕ) (g : Group) : (lendSeed L tid g).state = g.state := rfl

theorem takeSeed_state (g : Group) : (takeSeed g).state = g.state := rfl

theorem mixStep_state (a x : ℕ) (g : Group) : (mixStep L a x g).state = g.state := rfl

theorem lendMixHash_state (g : Group) : (lendMixHash L g).state = g.state := rfl

/-- **The accesses of a work-group** are the 64 accesses of `hash_kernel`, for the
seed of every hash at once. -/
theorem accesses_spec {seed : ℕ → Hash 16} {g : Group} (h : MixInv L seed 0 g) :
    MixInv L seed numDatasetAccesses (accesses L g) ∧ (accesses L g).state = g.state := by
  refine forLoop_inv (fun q g' => MixInv L seed (8 * q) g' ∧ g'.state = g.state) ⟨h, rfl⟩ ?_
  intro q _ g₁ hg₁
  refine forLoop_inv (fun x g' => MixInv L seed (8 * q + x) g' ∧ g'.state = g.state) hg₁ ?_
  intro x hx g₂ hg₂
  exact ⟨mixStep_mixInv L hx hg₂.1, (mixStep_state L _ _ g₂).trans hg₂.2⟩

/-- Lane `i` reduces its eight words to the words `2 * i` and `2 * i + 1` of the mix
hash. -/
theorem reduceMix_eq (mix : Hash 32) (i : Fin 4) :
    reduceMix (fun k => mix (Fin.ofNat 32 (8 * i + k))) = uint2s (compress mix) i := by
  simp only [reduceMix, uint2s, compress]
  fin_cases i <;> rfl

/-- The lanes of a hash lend its mix hash. -/
theorem lendMixHash_sharebuf {seed : ℕ → Hash 16} {g : Group}
    (h : MixInv L seed numDatasetAccesses g) {l : ℕ} (hl : l < L.worksize) (i : Fin 4) :
    (lendMixHash L g).sharebuf (l / 4, i) =
      uint2s (hashKernel L.dagSize (fun p => dataset p.toNat) (seed (l / 4))) i := by
  obtain ⟨m, hm⟩ := L.four_dvd
  set lane := 4 * (l / 4) + i.val with hlane
  have hlane_lt : lane < L.worksize := by omega
  have hhash : lane / 4 = l / 4 := by omega
  have hid : lane % 4 = i := by omega
  have hmix : g.mix lane = fun k : Fin 8 => mixAfter L.dagSize (fun p => dataset p.toNat) (seed (l / 4))
      numDatasetAccesses (Fin.ofNat 32 (8 * i + k)) := by
    funext k
    rw [(h lane hlane_lt).2 k, hhash, hid]
  have hlent : (lendMixHash L g).sharebuf (l / 4, i) = reduceMix (g.mix lane) := by
    refine scatter_of_mem g.sharebuf hlane_lt (List.mem_singleton.2 ?_) fun l' _ b hb => ?_
    · rw [hhash, hid]
    · simp only [List.mem_singleton, Prod.mk.injEq] at hb
      obtain ⟨⟨hhash', hid'⟩, rfl⟩ := hb
      rw [show l' = lane by omega]
  rw [hlent, hmix, reduceMix_eq, hashKernel]

/-- `hash_seed` of item `l`. -/
def seedOf (keccakf : State → State) (group l : ℕ) : Hash 16 :=
  hashSeed keccakf L.header (L.startNonce + (gid L group l).setWidth 64)

/-- `hash_kernel` of item `l`. -/
def mixHashOf (keccakf : State → State) (group l : ℕ) : Hash 8 :=
  hashKernel L.dagSize (fun p => dataset p.toNat) (seedOf L keccakf group l)

/-- After the owners `0, …, tid - 1`: every item holds its own seed, and those
served hold their own mix hash. -/
def OwnerInv (keccakf : State → State) (group tid : ℕ) (g : Group) : Prop :=
  ∀ l < L.worksize,
    HoldsSeed (fun i => g.state l (i.castLE eight_le_twentyFive)) (seedOf L keccakf group l) ∧
      (l % 4 < tid → ∀ i : Fin 4, g.state l ⟨8 + i, eight_add_lt_twentyFive i⟩ = uint2s (mixHashOf L keccakf group l) i)

/-- **One owner is served.** -/
theorem serveOwner_ownerInv {group tid : ℕ} (htid : tid < 4) {g : Group}
    (h : OwnerInv L keccakf group tid g) :
    OwnerInv L keccakf group (tid + 1) (serveOwner L tid g) := by
  obtain ⟨m, hm⟩ := L.four_dvd
  have hlent : ∀ l < L.worksize, HoldsSeed (fun i => (lendSeed L tid g).sharebuf (l / 4, i))
      (seedOf L keccakf group (4 * (l / 4) + tid)) := by
    intro l hl i
    exact (lendSeed_sharebuf L htid hl g i).trans ((h _ (by omega)).1 i)
  have hinit : MixInv L (fun hash => seedOf L keccakf group (4 * hash + tid)) 0
      (takeSeed (lendSeed L tid g)) := takeSeed_mixInv L hlent
  obtain ⟨hmix, hstate⟩ := accesses_spec L hinit
  rw [takeSeed_state, lendSeed_state] at hstate
  intro l hl
  simp only [serveOwner, takeMixHash, lendMixHash_state, hstate]
  refine ⟨fun i => ?_, fun hserved i => ?_⟩
  · simp only [Fin.val_castLE]
    rw [if_neg (by omega)]
    exact (h l hl).1 i
  · by_cases hown : tid = l % 4
    · rw [if_pos ⟨hown, by omega, by omega⟩, Nat.add_sub_cancel_left,
        lendMixHash_sharebuf L hmix hl i, mixHashOf, hown, Nat.div_add_mod]
    · rw [if_neg (by omega)]
      exact (h l hl).2 (by omega) i

theorem OwnerInv.holds {group : ℕ} {g : Group} (h : OwnerInv L keccakf group 4 g) {l : ℕ}
    (hl : l < L.worksize) :
    Holds (firstLanes (g.state l)) (seedOf L keccakf group l)
      (mixHashOf L keccakf group l) :=
  ⟨(h l hl).1, (h l hl).2 (by omega)⟩

/-- **The loop over the owners:** every item ends with its own seed and its own
mix hash. -/
theorem searchMix_holds (group : ℕ) (g : Group) {l : ℕ} (hl : l < L.worksize) :
    Holds (firstLanes ((searchMix kp L group g).state l))
      (seedOf L keccakf group l) (mixHashOf L keccakf group l) := by
  have hinv : OwnerInv L keccakf group 4 (searchMix kp L group g) := by
    unfold searchMix
    refine forLoop_inv (OwnerInv L keccakf group) (fun l _ => ⟨?_, fun h => ?_⟩) ?_
    · exact kp.run_initState L.header _
    · exact absurd h (Nat.not_lt_zero _)
    · exact fun tid htid g' hg' => serveOwner_ownerInv L htid hg'
  exact hinv.holds L hl

/-- The nonce item `l` tries is `start_nonce` plus its global id, in every launch. -/
theorem setWidth_gid {group l : ℕ} (hgroup : group < L.groups) (hl : l < L.worksize) :
    (gid L group l).setWidth 64 = BitVec.ofNat 64 (group * L.worksize + l) := by
  have hglobal := L.global_le
  have hlt : group * L.worksize + l < L.groups * L.worksize :=
    calc group * L.worksize + l < (group + 1) * L.worksize := by rw [Nat.succ_mul]; omega
      _ ≤ L.groups * L.worksize := Nat.mul_le_mul_right _ hgroup
  apply BitVec.eq_of_toNat_eq
  simp only [gid, BitVec.toNat_setWidth, BitVec.toNat_ofNat]
  omega

/-- **`search` agrees with the CPU code.**  Item `l` of the work-group `group`,
whose global id is `group * worksize + l`, ends the loop over the owners with
`state[8..11]` equal to the mix hash of `start_nonce` plus that id, and takes the
solution branch exactly when the first 64 bits of the final hash are at most
`target`, whatever the local memory held before. -/
theorem search_agrees (group : ℕ) (hgroup : group < L.groups) (l : ℕ) (hl : l < L.worksize)
    (g : Group) :
    let seed := hashSeed keccakf L.header (L.startNonce + BitVec.ofNat 64 (group * L.worksize + l))
    let mixHash := hashKernel L.dagSize (fun p => dataset p.toNat) seed
    (∀ i : Fin 4, (searchMix kp L group g).state l ⟨8 + i, eight_add_lt_twentyFive i⟩ = uint2s mixHash i) ∧
      (isSolution kp L group g l = true ↔
        upper64 (hashFinal keccakf seed mixHash) ≤ L.target.toNat) := by
  intro seed mixHash
  have hholds := searchMix_holds kp L group g hl
  have hseed : seedOf L keccakf group l = seed := by rw [seedOf, setWidth_gid L hgroup hl]
  have hmixHash : mixHashOf L keccakf group l = mixHash := by rw [mixHashOf, hseed]
  rw [hseed, hmixHash] at hholds
  unfold isSolution searchFinal
  generalize (searchMix kp L group g).state l = s at hholds ⊢
  refine ⟨hholds.mixHash_lane, ?_⟩
  rw [decide_eq_true_iff, BitVec.le_def, kp.run_finalState hholds]

end Kernel

/-- A `Launch` exists with two buffers as well: four items over a dataset of two. -/
def exampleLaunch : Launch fun i _ => BitVec.ofNat 32 i where
  worksize := 4
  worksize_pos := by decide
  four_dvd := by decide
  groups := 1
  global_le := by decide
  header := fun _ => 0
  startNonce := 0
  target := 0
  dagSize := 2
  dagSize_pos := by decide
  dag := ⟨true, fun _ _ => 0, fun _ _ => 1⟩
  dag_holds := by
    refine ⟨fun i hi => ?_, fun i hi => ?_⟩
    · obtain rfl : i = 0 := by simp at hi; omega
      rfl
    · obtain rfl : i = 0 := by simp at hi; omega
      rfl

/-- `search_agrees` at the last item of `exampleLaunch`, for the identity in the
place of the permutation. -/
theorem search_agrees_exampleLaunch :
    let kp : KeccakProcess id := ⟨fun s _ => s, fun _ _ _ _ => rfl⟩
    let g : Group := ⟨fun _ => ⟨0, 0⟩, fun _ => 0, fun _ _ => ⟨0, 0⟩, fun _ => 0, fun _ _ => 0⟩
    isSolution kp exampleLaunch 0 g 3 = true ↔
      upper64 (hashFinal id (hashSeed id (fun _ => 0) 3) (hashKernel 2 (fun p _ => BitVec.ofNat 32 p.toNat)
        (hashSeed id (fun _ => 0) 3))) ≤ 0 :=
  (search_agrees _ exampleLaunch 0 (by decide) 3 (by decide) _).2

end OpenCL
end EtcMiner
