/-
# The Ethash function of the CPU code

`hash_seed`, `hash_kernel` and `hash_final` in `ethash/lib/ethash/ethash.cpp`.
A `hash256`, `hash512` or `hash1024` is the array of its 32-bit words (the
`word32s` of the union); `bytes` and `lanes` are its other two views on a
little-endian machine, where the functions of `le` are the identity.

The dataset enters through `lookup`, the item of 32 words at an index below
`index_limit`; where it comes from (a full dataset or the light cache) is not
fixed here.
-/

import EtcMiner.Ethash.Keccak

namespace EtcMiner
namespace Ethash

open Lib

/-- `word32s` of `hash256` (`n = 8`), `hash512` (`n = 16`) and `hash1024` (`n = 32`). -/
abbrev Hash (n : ℕ) := Fin n → BitVec 32

/-- `bytes` of a hash. -/
def bytes {n : ℕ} (h : Hash n) : List Byte := (List.ofFn h).flatMap fun w => leBytes 4 w.toNat

/-- `word64s` of a hash of `2 * m` words. -/
def lanes {m : ℕ} (h : Hash (2 * m)) : List (BitVec 64) :=
  List.ofFn fun i : Fin m => join (h ⟨2 * i, by omega⟩) (h ⟨2 * i + 1, by omega⟩)

/-- The bytes of a hash are the bytes of its 64-bit words. -/
theorem bytes_eq_wordBytes {m : ℕ} (h : Hash (2 * m)) : bytes h = wordBytes (lanes h) := by
  induction m with
  | zero => rfl
  | succ m ih =>
    have htail := ih fun i => h ⟨i + 2, by omega⟩
    have hsplit : List.ofFn h = h ⟨0, by omega⟩ :: h ⟨1, by omega⟩ ::
        List.ofFn fun i : Fin (2 * m) => h ⟨i + 2, by omega⟩ :=
      List.ofFn_succ.trans (congrArg _ List.ofFn_succ)
    rw [bytes, hsplit, List.flatMap_cons, List.flatMap_cons, ← List.append_assoc, leBytes_join]
    rw [lanes, List.ofFn_succ, wordBytes, List.flatMap_cons]
    exact congrArg _ htail

/-- The first words of a Keccak state, as `keccak` writes them to `out`. -/
def ofLanes (n : ℕ) (s : State) : Hash n := fun i => word32 (s (Fin.ofNat 25 (i / 2))) (i % 2)

theorem ofLanes_two_mul {n : ℕ} (s : State) (i : Fin 25) (h : 2 * i.val < n) :
    ofLanes n s ⟨2 * i, h⟩ = word32 (s i) 0 := by
  have hlane : Fin.ofNat 25 (2 * i / 2) = i := Fin.ext (by simp)
  rw [ofLanes, hlane, Nat.mul_mod_right]

theorem ofLanes_two_mul_add_one {n : ℕ} (s : State) (i : Fin 25) (h : 2 * i.val + 1 < n) :
    ofLanes n s ⟨2 * i + 1, h⟩ = word32 (s i) 1 := by
  have hlane : Fin.ofNat 25 ((2 * i + 1) / 2) = i := Fin.ext (by simp; omega)
  rw [ofLanes, hlane, Nat.mul_add_mod]

/-- `ethash_keccak512`. -/
def keccak512 (keccakf : State → State) (data : List Byte) : Hash 16 :=
  ofLanes 16 (keccak keccakf 512 data)

/-- `ethash_keccak256`. -/
def keccak256 (keccakf : State → State) (data : List Byte) : Hash 8 :=
  ofLanes 8 (keccak keccakf 256 data)

/-- The state of the one permutation that hashes a node. -/
theorem keccak512_bytes (keccakf : State → State) (node : Hash 16) :
    keccak512 keccakf (bytes node) = ofLanes 16 (keccakf (padded 9 (lanes (m := 8) node))) := by
  have hbytes : bytes node = wordBytes (lanes (m := 8) node) := bytes_eq_wordBytes (m := 8) node
  rw [keccak512, hbytes, keccak_wordBytes _ _ _ (by simp [lanes])]

/-- `hash_seed`: Keccak-512 of the header followed by the nonce. -/
def hashSeed (keccakf : State → State) (header : Hash 8) (nonce : BitVec 64) : Hash 16 :=
  keccak512 keccakf (bytes header ++ leBytes 8 nonce.toNat)

/-- `hash_final`: Keccak-256 of the seed followed by the mix hash. -/
def hashFinal (keccakf : State → State) (seed : Hash 16) (mixHash : Hash 8) : Hash 8 :=
  keccak256 keccakf (bytes seed ++ bytes mixHash)

/-- The state of the one permutation `hash_seed` makes. -/
theorem hashSeed_eq (keccakf : State → State) (header : Hash 8) (nonce : BitVec 64) :
    hashSeed keccakf header nonce =
      ofLanes 16 (keccakf (padded 9 (lanes (m := 4) header ++ [nonce]))) := by
  have hbytes : bytes header ++ leBytes 8 nonce.toNat = wordBytes (lanes (m := 4) header ++ [nonce]) := by
    rw [bytes_eq_wordBytes (m := 4)]
    simp [wordBytes]
  rw [hashSeed, keccak512, hbytes, keccak_wordBytes _ _ _ (by simp [lanes])]

/-- The state of the one permutation `hash_final` makes. -/
theorem hashFinal_eq (keccakf : State → State) (seed : Hash 16) (mixHash : Hash 8) :
    hashFinal keccakf seed mixHash =
      ofLanes 8 (keccakf (padded 17 (lanes (m := 8) seed ++ lanes (m := 4) mixHash))) := by
  have hbytes : bytes seed ++ bytes mixHash =
      wordBytes (lanes (m := 8) seed ++ lanes (m := 4) mixHash) := by
    rw [bytes_eq_wordBytes (m := 8), bytes_eq_wordBytes (m := 4)]
    simp [wordBytes]
  rw [hashFinal, keccak256, hbytes, keccak_wordBytes _ _ _ (by simp [lanes])]

/-- `fnv_prime`. -/
def fnvPrime : BitVec 32 := 0x01000193

/-- `fnv1`. -/
def fnv1 (u v : BitVec 32) : BitVec 32 := u * fnvPrime ^^^ v

/-- `num_dataset_accesses`. -/
def numDatasetAccesses : ℕ := 64

/-- One access of `hash_kernel`: word `i % 32` of the mix picks the item that is
folded into all 32 words. -/
def mixRound (indexLimit : BitVec 32) (lookup : BitVec 32 → Hash 32) (seedInit : BitVec 32)
    (i : ℕ) (mix : Hash 32) : Hash 32 :=
  let p := fnv1 (BitVec.ofNat 32 i ^^^ seedInit) (mix (Fin.ofNat 32 i)) % indexLimit
  fun j => fnv1 (mix j) (lookup p j)

/-- `hash1024 mix{{seed, seed}}`. -/
def mixInit (seed : Hash 16) : Hash 32 := fun j => seed (Fin.ofNat 16 j)

/-- The fold of four words into one at the end of `hash_kernel`. -/
def fnvReduce (a b c d : BitVec 32) : BitVec 32 := fnv1 (fnv1 (fnv1 a b) c) d

/-- The mix hash of a mix: word `i` folds the words `4 * i, …, 4 * i + 3`. -/
def compress (mix : Hash 32) : Hash 8 := fun i =>
  fnvReduce (mix (Fin.ofNat 32 (4 * i))) (mix (Fin.ofNat 32 (4 * i + 1)))
    (mix (Fin.ofNat 32 (4 * i + 2))) (mix (Fin.ofNat 32 (4 * i + 3)))

/-- The mix of `hash_kernel` after `i` accesses. -/
def mixAfter (indexLimit : BitVec 32) (lookup : BitVec 32 → Hash 32) (seed : Hash 16) (i : ℕ) :
    Hash 32 :=
  forLoop (mixRound indexLimit lookup (seed 0)) i (mixInit seed)

/-- `hash_kernel`. -/
def hashKernel (indexLimit : BitVec 32) (lookup : BitVec 32 → Hash 32) (seed : Hash 16) : Hash 8 :=
  compress (mixAfter indexLimit lookup seed numDatasetAccesses)

/-- The first 64 bits of a hash, read as a big-endian number. -/
def upper64 (h : Hash 8) : ℕ := beValue ((bytes h).take 8)

/-- The first 64 bits of a hash, read big-endian, are its first lane with the
bytes reversed. -/
theorem upper64_ofLanes (s : State) :
    upper64 (ofLanes 8 s) = leValue (leBytes 8 (s 0).toNat).reverse := by
  have hbytes := bytes_eq_wordBytes (m := 4) (ofLanes 8 s)
  have hlanes : lanes (m := 4) (ofLanes 8 s) = [s 0, s 1, s 2, s 3] := by
    simp [lanes, ofLanes, List.ofFn_succ, Fin.ofNat]
  rw [upper64, beValue_eq, hbytes, hlanes]
  rfl

end Ethash
end EtcMiner
