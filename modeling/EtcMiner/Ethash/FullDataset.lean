/-
# Hashing with a dataset that is filled on demand

`hash` for an `epoch_context_full`, `search_light` and `search` in `ethash/lib/ethash/ethash.cpp`.  The
full dataset comes from `calloc`; `lazy_lookup` computes an item when it finds its first 64-bit word
zero, and reads it from then on.

An item is right or still has a zero there (`Lazy`), and every lookup keeps that.  So hashing with the
full dataset is hashing with the light cache, from the first call on (`hashFull_eq`,
`hashFull_calls`), and both searches return the first solution of their range, one that
`ethash_verify` accepts (`search_spec`).  A range that passes the largest nonce is not searched at all.
-/

import EtcMiner.Ethash.DatasetItem
import EtcMiner.Ethash.Verify
import Mathlib.Logic.Function.Basic

namespace EtcMiner
namespace Ethash

open Lib

/-- An `epoch_context`. -/
structure Context where
  lightCache : LightCache
  fullDatasetNumItems : BitVec 32

/-- `search_result`. -/
structure SearchResult where
  solutionFound : Bool := false
  nonce : BitVec 64 := 0
  finalHash : Hash 8 := fun _ => 0
  mixHash : Hash 8 := fun _ => 0

/-- `search_result(res, n)`. -/
def SearchResult.found (res : Result) (n : BitVec 64) : SearchResult := ⟨true, n, res.finalHash, res.mixHash⟩

/-- `word64s[0]` of a `hash1024`. -/
def firstLane (item : Hash 32) : BitVec 64 := join (item 0) (item 1)

/-- The loop of both searches, over a hash function with a state.  `fuel` is more than the nonces left. -/
def searchNonces {σ : Type*} (hash : BitVec 64 → σ → Result × σ) (boundary : Hash 8) (endNonce : BitVec 64) :
    ℕ → BitVec 64 → σ → SearchResult × σ
  | 0, _, s => ({}, s)
  | fuel + 1, nonce, s =>
    if nonce < endNonce then
      let r := hash nonce s
      if isLessOrEqual r.1.finalHash boundary then (SearchResult.found r.1 nonce, r.2)
      else searchNonces hash boundary endNonce fuel (nonce + 1) r.2
    else ({}, s)

section Context

variable (keccakf : State → State) (context : Context)

/-- What `ethash_hash` hashes with: the items computed from the light cache. -/
def Context.dataset : Dataset :=
  ⟨context.fullDatasetNumItems, fun p => calculateDatasetItem1024 keccakf context.lightCache p.toNat⟩

/-- `lazy_lookup`, with the dataset it leaves. -/
def lazyLookup (index : BitVec 32) (fullDataset : ℕ → Hash 32) : Hash 32 × (ℕ → Hash 32) :=
  let fullDataset :=
    if firstLane (fullDataset index.toNat) = 0 then
      Function.update fullDataset index.toNat (calculateDatasetItem1024 keccakf context.lightCache index.toNat)
    else fullDataset
  (fullDataset index.toNat, fullDataset)

/-- One access of `hash_kernel` with `lazy_lookup`. -/
def mixRoundFull (seedInit : BitVec 32) (i : ℕ) (s : Hash 32 × (ℕ → Hash 32)) : Hash 32 × (ℕ → Hash 32) :=
  let p := fnv1 (BitVec.ofNat 32 i ^^^ seedInit) (s.1 (Fin.ofNat 32 i)) % context.fullDatasetNumItems
  let newdata := lazyLookup keccakf context p s.2
  (fun j => fnv1 (s.1 j) (newdata.1 j), newdata.2)

/-- `hash_kernel` with `lazy_lookup`. -/
def hashKernelFull (seed : Hash 16) (fullDataset : ℕ → Hash 32) : Hash 8 × (ℕ → Hash 32) :=
  let s := forLoop (mixRoundFull keccakf context (seed 0)) numDatasetAccesses (mixInit seed, fullDataset)
  (compress s.1, s.2)

/-- `hash` for an `epoch_context_full`. -/
def hashFull (headerHash : Hash 8) (nonce : BitVec 64) (fullDataset : ℕ → Hash 32) : Result × (ℕ → Hash 32) :=
  let seed := hashSeed keccakf headerHash nonce
  let r := hashKernelFull keccakf context seed fullDataset
  (⟨hashFinal keccakf seed r.1, r.1⟩, r.2)

/-- `search_light`. -/
def searchLight (headerHash boundary : Hash 8) (startNonce iterations : BitVec 64) : SearchResult :=
  (searchNonces (fun nonce _ => (ethashHash keccakf (context.dataset keccakf) headerHash nonce, ())) boundary
    (startNonce + iterations) (iterations.toNat + 1) startNonce ()).1

/-- `search`. -/
def search (headerHash boundary : Hash 8) (startNonce iterations : BitVec 64) (fullDataset : ℕ → Hash 32) :
    SearchResult × (ℕ → Hash 32) :=
  searchNonces (hashFull keccakf context headerHash) boundary (startNonce + iterations) (iterations.toNat + 1) startNonce
    fullDataset

/-- The items that are there are right. -/
def Lazy (fullDataset : ℕ → Hash 32) : Prop :=
  ∀ i, firstLane (fullDataset i) = 0 ∨ fullDataset i = calculateDatasetItem1024 keccakf context.lightCache i

variable {keccakf context} {fullDataset : ℕ → Hash 32}

/-- A dataset from `calloc`. -/
theorem lazy_zero : Lazy keccakf context fun _ _ => 0 := fun _ => .inl (show firstLane (fun _ => 0) = 0 by decide)

theorem lazyLookup_spec (h : Lazy keccakf context fullDataset) (index : BitVec 32) :
    (lazyLookup keccakf context index fullDataset).1 =
        calculateDatasetItem1024 keccakf context.lightCache index.toNat ∧
      Lazy keccakf context (lazyLookup keccakf context index fullDataset).2 := by
  unfold lazyLookup
  split
  · refine ⟨Function.update_self _ _ _, fun i => ?_⟩
    by_cases hi : i = index.toNat
    · subst hi
      exact .inr (Function.update_self _ _ _)
    · simpa [hi] using h i
  · next hthere =>
    obtain hzero | hitem := h index.toNat
    · exact absurd hzero hthere
    · exact ⟨hitem, h⟩

theorem dataset_item1024 (p : BitVec 32) :
    (context.dataset keccakf).item1024 p = calculateDatasetItem1024 keccakf context.lightCache p.toNat := rfl

theorem dataset_fullDatasetNumItems : (context.dataset keccakf).fullDatasetNumItems = context.fullDatasetNumItems := rfl

/-- An access with `lazy_lookup` mixes as one with the light cache. -/
theorem mixRoundFull_spec (seedInit : BitVec 32) (i : ℕ) {s : Hash 32 × (ℕ → Hash 32)} (h : Lazy keccakf context s.2) :
    (mixRoundFull keccakf context seedInit i s).1 =
        mixRound context.fullDatasetNumItems (context.dataset keccakf).item1024 seedInit i s.1 ∧
      Lazy keccakf context (mixRoundFull keccakf context seedInit i s).2 := by
  have hlookup := lazyLookup_spec h (fnv1 (BitVec.ofNat 32 i ^^^ seedInit) (s.1 (Fin.ofNat 32 i)) % context.fullDatasetNumItems)
  refine ⟨?_, hlookup.2⟩
  simp only [mixRoundFull, mixRound, hlookup.1, dataset_item1024]

theorem hashKernelFull_spec (seed : Hash 16) (h : Lazy keccakf context fullDataset) :
    (hashKernelFull keccakf context seed fullDataset).1 =
        hashKernel context.fullDatasetNumItems (context.dataset keccakf).item1024 seed ∧
      Lazy keccakf context (hashKernelFull keccakf context seed fullDataset).2 := by
  have hrounds (n : ℕ) : (forLoop (mixRoundFull keccakf context (seed 0)) n (mixInit seed, fullDataset)).1 =
        mixAfter context.fullDatasetNumItems (context.dataset keccakf).item1024 seed n ∧
      Lazy keccakf context (forLoop (mixRoundFull keccakf context (seed 0)) n (mixInit seed, fullDataset)).2 := by
    induction n with
    | zero => exact ⟨rfl, h⟩
    | succ n ih =>
      have hround := mixRoundFull_spec (seed 0) n ih.2
      rw [ih.1] at hround
      exact hround
  refine ⟨?_, (hrounds _).2⟩
  rw [hashKernel, ← (hrounds numDatasetAccesses).1]
  rfl

/-- **Hashing with the full dataset is hashing with the light cache.** -/
theorem hashFull_eq (h : Lazy keccakf context fullDataset) (headerHash : Hash 8) (nonce : BitVec 64) :
    (hashFull keccakf context headerHash nonce fullDataset).1 =
        ethashHash keccakf (context.dataset keccakf) headerHash nonce ∧
      Lazy keccakf context (hashFull keccakf context headerHash nonce fullDataset).2 := by
  obtain ⟨hmix, hlazy⟩ := hashKernelFull_spec (hashSeed keccakf headerHash nonce) h
  refine ⟨?_, hlazy⟩
  simp only [hashFull, ethashHash, hmix, dataset_fullDatasetNumItems]

/-- Any number of calls, one after the other. -/
def hashCalls (keccakf : State → State) (context : Context) :
    List (Hash 8 × BitVec 64) → (ℕ → Hash 32) → List Result × (ℕ → Hash 32)
  | [], fullDataset => ([], fullDataset)
  | call :: calls, fullDataset =>
    let r := hashFull keccakf context call.1 call.2 fullDataset
    let rest := hashCalls keccakf context calls r.2
    (r.1 :: rest.1, rest.2)

theorem hashCalls_spec (calls : List (Hash 8 × BitVec 64)) (h : Lazy keccakf context fullDataset) :
    (hashCalls keccakf context calls fullDataset).1 =
        calls.map (fun call => ethashHash keccakf (context.dataset keccakf) call.1 call.2) ∧
      Lazy keccakf context (hashCalls keccakf context calls fullDataset).2 := by
  induction calls generalizing fullDataset with
  | nil => exact ⟨rfl, h⟩
  | cons call calls ih =>
    obtain ⟨hresult, hlazy⟩ := hashFull_eq h call.1 call.2
    obtain ⟨hrest, hlazy'⟩ := ih hlazy
    exact ⟨congrArg₂ List.cons hresult hrest, hlazy'⟩

/-- **The calls of `hash` on a new full context** give what `ethash_hash` gives. -/
theorem hashFull_calls (keccakf : State → State) (context : Context) (calls : List (Hash 8 × BitVec 64)) :
    (hashCalls keccakf context calls fun _ _ => 0).1 =
      calls.map fun call => ethashHash keccakf (context.dataset keccakf) call.1 call.2 :=
  (hashCalls_spec calls lazy_zero).1

end Context

section Search

variable {σ : Type*} {hash : BitVec 64 → Result} {boundary : Hash 8} {endNonce : BitVec 64}

/-- A search with a state that does not show in the results. -/
theorem searchNonces_eq {hash' : BitVec 64 → σ → Result × σ} {Inv : σ → Prop}
    (hhash : ∀ nonce s, Inv s → (hash' nonce s).1 = hash nonce ∧ Inv (hash' nonce s).2) (fuel : ℕ) (nonce : BitVec 64)
    {s : σ} (hs : Inv s) :
    (searchNonces hash' boundary endNonce fuel nonce s).1 =
        (searchNonces (fun nonce _ => (hash nonce, ())) boundary endNonce fuel nonce ()).1 ∧
      Inv (searchNonces hash' boundary endNonce fuel nonce s).2 := by
  induction fuel generalizing nonce s with
  | zero => exact ⟨rfl, hs⟩
  | succ fuel ih =>
    obtain ⟨hresult, hnext⟩ := hhash nonce s hs
    simp only [searchNonces, hresult]
    split
    · split
      · exact ⟨rfl, hnext⟩
      · exact ih (nonce + 1) hnext
    · exact ⟨rfl, hs⟩

/-- The nonce is still in the range if `m` of it are left. -/
theorem lt_endNonce {nonce : BitVec 64} {m : ℕ} (hm : nonce.toNat + (m + 1) = endNonce.toNat) :
    nonce < endNonce ∧ (nonce + 1).toNat + m = endNonce.toNat := by
  have hlt := endNonce.isLt
  refine ⟨BitVec.lt_def.2 (by omega), ?_⟩
  rw [BitVec.toNat_add, show (1 : BitVec 64).toNat = 1 from rfl, Nat.mod_eq_of_lt (by omega)]
  omega

theorem add_one_add (nonce : BitVec 64) (k : ℕ) : nonce + 1 + BitVec.ofNat 64 k = nonce + BitVec.ofNat 64 (k + 1) := by
  rw [BitVec.add_assoc, BitVec.ofNat_add, BitVec.add_comm 1]
  rfl

/-- **The first solution of the range**, or none. -/
theorem searchNonces_spec {fuel m : ℕ} {nonce : BitVec 64} (hm : nonce.toNat + m = endNonce.toNat) (hfuel : m < fuel) :
    let r := (searchNonces (fun nonce _ => (hash nonce, ())) boundary endNonce fuel nonce ()).1
    (r = {} ∧ ∀ k < m, isLessOrEqual (hash (nonce + BitVec.ofNat 64 k)).finalHash boundary = false) ∨
      ∃ k < m, r = SearchResult.found (hash (nonce + BitVec.ofNat 64 k)) (nonce + BitVec.ofNat 64 k) ∧
        isLessOrEqual (hash (nonce + BitVec.ofNat 64 k)).finalHash boundary = true ∧
        ∀ j < k, isLessOrEqual (hash (nonce + BitVec.ofNat 64 j)).finalHash boundary = false := by
  induction m generalizing nonce fuel with
  | zero =>
    obtain ⟨fuel, rfl⟩ := Nat.exists_eq_succ_of_ne_zero (Nat.ne_of_gt hfuel)
    have hend : ¬ nonce < endNonce := by
      rw [BitVec.lt_def]
      omega
    refine .inl ⟨?_, fun k hk => absurd hk (Nat.not_lt_zero k)⟩
    simp only [searchNonces, if_neg hend]
  | succ m ih =>
    obtain ⟨fuel, rfl⟩ := Nat.exists_eq_succ_of_ne_zero (Nat.ne_of_gt ((Nat.zero_le _).trans_lt hfuel))
    obtain ⟨hlt, hleft⟩ := lt_endNonce hm
    have hzero : nonce + BitVec.ofNat 64 0 = nonce := by simp
    simp only [searchNonces, if_pos hlt]
    by_cases hhit : isLessOrEqual (hash nonce).finalHash boundary = true
    · rw [if_pos hhit]
      refine .inr ⟨0, Nat.succ_pos m, ?_, ?_, fun j hj => absurd hj (Nat.not_lt_zero j)⟩
      · rw [hzero]
      · rwa [hzero]
    · rw [if_neg hhit]
      rw [Bool.not_eq_true] at hhit
      -- the nonces of the rest are those of the range but the first
      have hfirst {k : ℕ} (h : ∀ j < k, isLessOrEqual (hash (nonce + 1 + BitVec.ofNat 64 j)).finalHash boundary = false) :
          ∀ j < k + 1, isLessOrEqual (hash (nonce + BitVec.ofNat 64 j)).finalHash boundary = false := by
        rintro (_ | j) hj
        · rwa [hzero]
        · rw [← add_one_add]
          exact h j (by omega)
      obtain ⟨hnone, hno⟩ | ⟨k, hk, hfound, hhit', hbefore⟩ := ih hleft (Nat.lt_of_succ_lt_succ hfuel)
      · exact .inl ⟨hnone, hfirst hno⟩
      · rw [add_one_add] at hfound hhit'
        exact .inr ⟨k + 1, Nat.succ_lt_succ hk, hfound, hhit', hfirst hbefore⟩

end Search

section Searches

variable (keccakf : State → State) (context : Context) (headerHash boundary : Hash 8)

/-- The final hash of the nonce is at most the boundary. -/
def Hits (nonce : BitVec 64) : Prop :=
  beValue (bytes (ethashHash keccakf (context.dataset keccakf) headerHash nonce).finalHash) ≤ beValue (bytes boundary)

variable {keccakf context headerHash boundary}

theorem isLessOrEqual_finalHash (nonce : BitVec 64) :
    isLessOrEqual (ethashHash keccakf (context.dataset keccakf) headerHash nonce).finalHash boundary = true ↔
      Hits keccakf context headerHash boundary nonce := isLessOrEqual_iff _ _

theorem search_eq (startNonce iterations : BitVec 64) {fullDataset : ℕ → Hash 32} (h : Lazy keccakf context fullDataset) :
    (search keccakf context headerHash boundary startNonce iterations fullDataset).1 =
      searchLight keccakf context headerHash boundary startNonce iterations := by
  have hsame := @searchNonces_eq _ (ethashHash keccakf (context.dataset keccakf) headerHash) boundary
    (startNonce + iterations) (hashFull keccakf context headerHash) (Lazy keccakf context)
    (fun nonce _ hs => hashFull_eq hs headerHash nonce) (iterations.toNat + 1) startNonce fullDataset h
  exact hsame.1

/-- A range that passes the largest nonce ends before it starts. -/
theorem searchLight_of_wrap {startNonce iterations : BitVec 64} (hwrap : 2 ^ 64 ≤ startNonce.toNat + iterations.toNat) :
    searchLight keccakf context headerHash boundary startNonce iterations = {} := by
  have hend : ¬ startNonce < startNonce + iterations := by
    have hlt := iterations.isLt
    have hlt' := startNonce.isLt
    rw [BitVec.lt_def, BitVec.toNat_add]
    omega
  have hstop (fuel : ℕ) (hash : BitVec 64 → Unit → Result × Unit) :
      (searchNonces hash boundary (startNonce + iterations) fuel startNonce ()).1 = {} := by
    cases fuel with
    | zero => rfl
    | succ fuel => rw [searchNonces, if_neg hend]
  unfold searchLight
  exact hstop _ _

theorem searchLight_spec {startNonce iterations : BitVec 64} (hfits : startNonce.toNat + iterations.toNat < 2 ^ 64) :
    (searchLight keccakf context headerHash boundary startNonce iterations = {} ∧
        ∀ k < iterations.toNat, ¬ Hits keccakf context headerHash boundary (startNonce + BitVec.ofNat 64 k)) ∨
      ∃ k < iterations.toNat, searchLight keccakf context headerHash boundary startNonce iterations =
          SearchResult.found (ethashHash keccakf (context.dataset keccakf) headerHash (startNonce + BitVec.ofNat 64 k))
            (startNonce + BitVec.ofNat 64 k) ∧
        Hits keccakf context headerHash boundary (startNonce + BitVec.ofNat 64 k) ∧
        ∀ j < k, ¬ Hits keccakf context headerHash boundary (startNonce + BitVec.ofNat 64 j) := by
  have hend : startNonce.toNat + iterations.toNat = (startNonce + iterations).toNat := by
    rw [BitVec.toNat_add, Nat.mod_eq_of_lt hfits]
  have hspec := @searchNonces_spec (ethashHash keccakf (context.dataset keccakf) headerHash) boundary _ (iterations.toNat + 1) _ _ hend
    (Nat.lt_succ_self _)
  simpa only [searchLight, ← Bool.not_eq_true, isLessOrEqual_finalHash] using hspec

variable (keccakf context headerHash boundary)

/-- **What the searches return**, on a full context that has been used for any calls.  Both return the
same: the first nonce of the range that hits, with its hashes, which `ethash_verify` accepts.  If the range
passes the largest nonce they return no solution, though there may be one. -/
theorem search_spec (calls : List (Hash 8 × BitVec 64)) (startNonce iterations : BitVec 64) :
    let r := searchLight keccakf context headerHash boundary startNonce iterations
    let nonceAt (k : ℕ) : BitVec 64 := startNonce + BitVec.ofNat 64 k
    (search keccakf context headerHash boundary startNonce iterations
        (hashCalls keccakf context calls fun _ _ => 0).2).1 = r ∧
      (2 ^ 64 ≤ startNonce.toNat + iterations.toNat → r = {}) ∧
      (startNonce.toNat + iterations.toNat < 2 ^ 64 →
        (r = {} ∧ ∀ k < iterations.toNat, ¬ Hits keccakf context headerHash boundary (nonceAt k)) ∨
        ∃ k < iterations.toNat,
          r = SearchResult.found (ethashHash keccakf (context.dataset keccakf) headerHash (nonceAt k)) (nonceAt k) ∧
          ethashVerify keccakf (context.dataset keccakf) headerHash r.nonce r.mixHash boundary = true ∧
          ∀ j < k, ¬ Hits keccakf context headerHash boundary (nonceAt j)) := by
  intro r nonceAt
  refine ⟨search_eq startNonce iterations (hashCalls_spec calls lazy_zero).2, searchLight_of_wrap, fun hfits => ?_⟩
  obtain hnone | ⟨k, hk, hfound, hhit, hbefore⟩ := searchLight_spec hfits
  · exact .inl hnone
  · refine .inr ⟨k, hk, hfound, ?_, hbefore⟩
    rw [show r = _ from hfound]
    exact (ethashVerify_ethashHash _ _ _ _ _).2 hhit

end Searches

end Ethash
end EtcMiner
