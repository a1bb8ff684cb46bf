/-
# Every result of the CUDA miner belongs to its launch

In every run, whatever other threads do between the steps of the worker, each launch
finds the DAG, the header and the target of its package on the device; while all
streams are relaunched the launches of a search take consecutive nonces; and every
solution carries the package and the start nonce of the launch whose results were
read (`results_attributed`).

The invariant of a search (`Tracks`) says how far each busy stream lies behind
`start_nonce`: by a round less the streams still to come if its turn is ahead, and by
the streams passed since if its turn is over.
-/

import EtcMiner.Cuda.CUDAMiner
import EtcMiner.Lib.Cyclic

namespace EtcMiner
namespace CUDAMiner

open Common Eth Lib

variable {cfg : Config}

/-- A launch that matches its package. -/
def Launch.Matches (l : Launch) : Prop :=
  l.device.dagEpoch = l.package.epoch ∧ l.device.header = l.package.header ∧
    l.device.target = upper64OfH256 l.package.boundary

/-- The nonces a launch tries. -/
def Launch.nonces (l : Launch) : Set (BitVec 64) := arc l.startNonce l.batchBlocks.toNat

/-- Every stream is still relaunched. -/
def Search.AllBusy (q : Search cfg) : Prop := ∀ i < cfg.cuStreamSize, q.streamsBsy i = true

/-- The launches of a search take consecutive nonces from the start nonce of its package
on, and two of them share no nonce unless they are `2 ^ 64` nonces apart. -/
structure Search.Covers (q : Search cfg) : Prop where
  consecutive : ∀ k l, q.launched[k]? = some l → l.package = q.package ∧
    l.batchBlocks = q.multiple.batchBlocks ∧
    l.startNonce = batchNonce q.package q.multiple k
  disjoint : ∀ i j l l', q.launched[i]? = some l → q.launched[j]? = some l' → i < j →
    (j + 1 - i) * q.multiple.batchBlocks.toNat ≤ 2 ^ 64 → Disjoint l.nonces l'.nonces

/-- What a step in state `s` must show: its launches match, and each solution belongs to
the launch in flight on the stream that is read. -/
structure Attributed (s : State cfg) (e : Event cfg) : Prop where
  launches : ∀ l ∈ (step s e).2.launches, l.Matches
  submitted : ∀ sol ∈ (step s e).2.submitted, ∃ q gids shouldStop, s.phase = .searching q ∧
    e = .stream gids shouldStop ∧ ∃ gid ∈ gids,
      sol.nonce = (q.inFlight q.streamIdx).startNonce + gid.setWidth 64 ∧
      sol.work = (q.inFlight q.streamIdx).package

section Blocks

variable (w : WorkPackage) (m : Multiple cfg)

/-- `stream_blocks` does not overflow. -/
theorem Multiple.streamBlocks_eq :
    m.streamBlocks.setWidth 64 = BitVec.ofNat 64 cfg.cuStreamSize * m.batchBlocks.setWidth 64 := by
  have hfits := m.fits
  have hpos : 1 ≤ cfg.cuStreamSize := by
    rcases cfg.stream_mem with h | h | h <;> omega
  have hstreams : cfg.cuStreamSize ≤ 4 := by
    rcases cfg.stream_mem with h | h | h <;> omega
  have hbatch : m.value * cfg.cuBlockSize < 2 ^ 32 :=
    lt_of_le_of_lt (Nat.le_mul_of_pos_right _ hpos) hfits
  have htoNat : m.batchBlocks.toNat = m.value * cfg.cuBlockSize := by
    rw [Multiple.batchBlocks, BitVec.toNat_mul, BitVec.toNat_ofNat, BitVec.toNat_ofNat, ← Nat.mul_mod,
      Nat.mod_eq_of_lt hbatch]
  apply BitVec.eq_of_toNat_eq
  rw [BitVec.toNat_setWidth, Multiple.streamBlocks, BitVec.toNat_mul, BitVec.toNat_mul,
    BitVec.toNat_setWidth, BitVec.toNat_ofNat, BitVec.toNat_ofNat, htoNat,
    Nat.mod_eq_of_lt (by omega : cfg.cuStreamSize < 2 ^ 32),
    Nat.mod_eq_of_lt (by omega : cfg.cuStreamSize < 2 ^ 64),
    Nat.mod_eq_of_lt (by omega : m.value * cfg.cuBlockSize < 2 ^ 64), Nat.mod_eq_of_lt hfits,
    Nat.mul_comm]

theorem batchNonce_succ (k : ℕ) :
    batchNonce w m (k + 1) = batchNonce w m k + m.batchBlocks.setWidth 64 := by
  rw [batchNonce, batchNonce, BitVec.ofNat_add]
  rw [show BitVec.ofNat 64 1 = (1 : BitVec 64) from rfl]
  ring

/-- `k` batches after the start, in nonces. -/
theorem batchNonce_eq (k : ℕ) :
    batchNonce w m k = w.startNonce + BitVec.ofNat 64 (k * m.batchBlocks.toNat) := by
  rw [batchNonce, BitVec.ofNat_mul, BitVec.ofNat_toNat]

end Blocks

/-- Launches on consecutive batches share no nonce before the cycle of nonces is
complete. -/
theorem Search.covers_of_consecutive {q : Search cfg}
    (h : ∀ k l, q.launched[k]? = some l → l.package = q.package ∧
      l.batchBlocks = q.multiple.batchBlocks ∧ l.startNonce = batchNonce q.package q.multiple k) :
    q.Covers := by
  refine ⟨h, ?_⟩
  intro i j l l' hl hl' hij hcycle
  obtain ⟨-, hbatch, hstart⟩ := h i l hl
  obtain ⟨-, hbatch', hstart'⟩ := h j l' hl'
  rw [Launch.nonces, Launch.nonces, hbatch, hbatch', hstart, hstart', batchNonce_eq, batchNonce_eq]
  generalize q.multiple.batchBlocks.toNat = b at hcycle ⊢
  obtain ⟨d, rfl⟩ := Nat.exists_eq_add_of_lt hij
  refine disjoint_arc ?_ ?_
  · nlinarith [Nat.zero_le (d * b)]
  · have hlen : i + d + 1 + 1 - i = d + 2 := by omega
    rw [hlen] at hcycle
    nlinarith

/-- How many batches the launch on stream `i` lies behind `start_nonce` when the inner
loop is at the stream `j`. -/
def lag (cfg : Config) (j i : ℕ) : ℕ := if i < j then j - i else cfg.cuStreamSize + j - i

/-- The invariant of `search`: the device holds what the package asks for, and every busy
stream runs the launch `lag` batches back. -/
structure Tracks (d : Device) (q : Search cfg) : Prop where
  epoch : d.dagEpoch = q.package.epoch
  header : d.header = q.package.header
  target : d.target = upper64OfH256 q.package.boundary
  streamIdx_le : q.streamIdx ≤ cfg.cuStreamSize
  inFlight : ∀ i < cfg.cuStreamSize, q.streamsBsy i = true →
    (q.inFlight i).package = q.package ∧ (q.inFlight i).startNonce =
      q.startNonce - BitVec.ofNat 64 (lag cfg q.streamIdx i) * q.multiple.batchBlocks.setWidth 64
  launched : q.AllBusy → (∀ k l, q.launched[k]? = some l → l.package = q.package ∧
    l.batchBlocks = q.multiple.batchBlocks ∧ l.startNonce = batchNonce q.package q.multiple k) ∧
    q.startNonce = batchNonce q.package q.multiple q.launched.length

/-- The invariant of the worker. -/
def Inv (s : State cfg) : Prop :=
  (∀ d, s.device = some d → d.target = s.currentTarget) ∧
    match s.phase with
    | .stopped => s.device = none
    | .running => ∀ d, s.device = some d → d.dagEpoch = s.last.epoch
    | .initializing _ => s.device = none ∧ s.currentTarget = 0
    | .searching q => s.last = q.package ∧ ∃ d, s.device = some d ∧ Tracks d q

theorem lag_zero (i : ℕ) (h : i < cfg.cuStreamSize) :
    lag cfg 0 i = lag cfg cfg.cuStreamSize i := by
  rw [lag, lag, if_neg (Nat.not_lt_zero i), if_pos h, Nat.add_zero]

theorem lag_self (i : ℕ) : lag cfg i i = cfg.cuStreamSize := by
  rw [lag, if_neg (Nat.lt_irrefl i), Nat.add_sub_cancel]

theorem lag_succ_self (i : ℕ) : lag cfg (i + 1) i = 1 := by
  rw [lag, if_pos (Nat.lt_succ_self i)]
  omega

theorem lag_succ {i j : ℕ} (hne : i ≠ j) (hi : i < cfg.cuStreamSize) :
    lag cfg (j + 1) i = lag cfg j i + 1 := by
  unfold lag
  split_ifs <;> omega

section Search

variable {d : Device} {q : Search cfg}

/-- Passing another stream keeps the start nonce that `lag` points back to. -/
theorem sub_lag_succ {i j : ℕ} (hne : i ≠ j) (hi : i < cfg.cuStreamSize) (x b : BitVec 64) :
    x + b - BitVec.ofNat 64 (lag cfg (j + 1) i) * b = x - BitVec.ofNat 64 (lag cfg j i) * b := by
  rw [lag_succ hne hi, BitVec.ofNat_add, show BitVec.ofNat 64 1 = (1 : BitVec 64) from rfl]
  ring

/-- The streams other than the one passed. -/
theorem Tracks.inFlight_advance (h : Tracks d q) {i : ℕ} (hne : i ≠ q.streamIdx)
    (hi : i < cfg.cuStreamSize) (hbusy : q.streamsBsy i = true) :
    (q.inFlight i).package = q.package ∧ (q.inFlight i).startNonce = q.advance.startNonce -
      BitVec.ofNat 64 (lag cfg q.advance.streamIdx i) * q.multiple.batchBlocks.setWidth 64 := by
  obtain ⟨hpackage, hstart⟩ := h.inFlight i hi hbusy
  exact ⟨hpackage, hstart.trans (sub_lag_succ hne hi _ _).symm⟩

/-- A stream that is not busy is skipped. -/
theorem Tracks.advance (h : Tracks d q) (hlt : q.streamIdx < cfg.cuStreamSize)
    (hfree : ¬ q.streamsBsy q.streamIdx = true) : Tracks d q.advance := by
  refine ⟨h.epoch, h.header, h.target, hlt, ?_, ?_⟩
  · intro i hi hbusy
    have hne : i ≠ q.streamIdx := by
      rintro rfl
      exact hfree hbusy
    exact h.inFlight_advance hne hi hbusy
  · intro hall
    exact absurd (hall q.streamIdx hlt) hfree

/-- A stream that is not relaunched is no longer busy. -/
theorem Tracks.retire (h : Tracks d q) : Tracks d q.retire := by
  refine ⟨h.epoch, h.header, h.target, h.streamIdx_le, ?_, ?_⟩
  · intro i hi hbusy
    by_cases hne : i = q.streamIdx
    · simp [Search.retire, hne] at hbusy
    · simp only [Search.retire, if_neg hne] at hbusy
      exact h.inFlight i hi hbusy
  · intro hall
    refine h.launched fun i hi => ?_
    have hbusy := hall i hi
    by_cases hne : i = q.streamIdx
    · simp [Search.retire, hne] at hbusy
    · simpa only [Search.retire, if_neg hne] using hbusy

/-- A stream that is relaunched runs the batch at `start_nonce`. -/
theorem Tracks.relaunch_advance (h : Tracks d q) (hlt : q.streamIdx < cfg.cuStreamSize) :
    Tracks d (q.relaunch d).advance := by
  refine ⟨h.epoch, h.header, h.target, hlt, ?_, ?_⟩
  · intro i hi hbusy
    by_cases hne : i = q.streamIdx
    · subst hne
      simp only [Search.relaunch, Search.advance, if_true, Search.launch, lag_succ_self, true_and]
      rw [show BitVec.ofNat 64 1 = (1 : BitVec 64) from rfl]
      ring
    · simp only [Search.relaunch, Search.advance, if_neg hne]
      exact h.inFlight_advance hne hi hbusy
  · intro hall
    obtain ⟨hlaunched, hstart⟩ := h.launched hall
    constructor
    · intro k l hl
      rcases Nat.lt_trichotomy k q.launched.length with hk | hk | hk
      · refine hlaunched k l ?_
        simpa only [Search.relaunch, Search.advance, List.getElem?_append_left hk] using hl
      · subst hk
        simp only [Search.relaunch, Search.advance, List.getElem?_concat_length,
          Option.some.injEq] at hl
        subst hl
        exact ⟨rfl, rfl, hstart⟩
      · rw [List.getElem?_eq_none (by simp [Search.relaunch, Search.advance]; omega)] at hl
        exact absurd hl (by simp)
    · simp only [Search.relaunch, Search.advance, List.length_append, List.length_singleton,
        batchNonce_succ, hstart]

/-- A new round starts where the last one ended. -/
theorem Tracks.restart (h : Tracks d q) (hend : q.streamIdx = cfg.cuStreamSize) :
    Tracks d { q with streamIdx := 0 } := by
  refine ⟨h.epoch, h.header, h.target, Nat.zero_le _, ?_, h.launched⟩
  intro i hi hbusy
  obtain ⟨hpackage, hstart⟩ := h.inFlight i hi hbusy
  refine ⟨hpackage, ?_⟩
  rw [hstart, hend, lag_zero i hi]

/-- A primed search. -/
theorem tracks_primed (w : WorkPackage) (m : Multiple cfg) (hepoch : d.dagEpoch = w.epoch)
    (hheader : d.header = w.header) (htarget : d.target = upper64OfH256 w.boundary) :
    Tracks d (primed w d m) := by
  refine ⟨hepoch, hheader, htarget, le_rfl, ?_, ?_⟩
  · intro i hi _
    refine ⟨rfl, ?_⟩
    have hlag : lag cfg cfg.cuStreamSize i = cfg.cuStreamSize - i := if_pos hi
    have hlen : BitVec.ofNat 64 cfg.cuStreamSize =
        BitVec.ofNat 64 i + BitVec.ofNat 64 (cfg.cuStreamSize - i) := by
      rw [← BitVec.ofNat_add, Nat.add_sub_cancel' hi.le]
    simp only [primed, hlag, batchNonce]
    rw [hlen]
    ring
  · intro _
    constructor
    · intro k l hl
      simp only [primed, primeLaunches, List.getElem?_map, Option.map_eq_some_iff] at hl
      obtain ⟨i, hi, rfl⟩ := hl
      obtain ⟨_, rfl⟩ := List.getElem?_eq_some_iff.1 hi
      simp [primed]
    · simp [primed, primeLaunches]

end Search

section Step

variable {s : State cfg}

/-- After `set_header` and `set_target` the device holds what the package asks for. -/
theorem setConstants_target {w : WorkPackage} {d : Device} (h : d.target = s.currentTarget) :
    (setConstants s w d).target = upper64OfH256 w.boundary := by
  unfold setConstants
  by_cases htarget : s.currentTarget = upper64OfH256 w.boundary
  · simp [htarget, h]
  · simp [htarget]

theorem matches_of_mem_primeLaunches {w : WorkPackage} {d : Device} {m : Multiple cfg} {n : ℕ}
    (hepoch : d.dagEpoch = w.epoch) (hheader : d.header = w.header)
    (htarget : d.target = upper64OfH256 w.boundary) :
    ∀ l ∈ primeLaunches w d m n, l.Matches := by
  intro l hl
  obtain ⟨i, -, rfl⟩ := List.mem_map.1 hl
  exact ⟨hepoch, hheader, htarget⟩

/-- Priming: the launches match, and the search starts with its invariant. -/
theorem prime_spec {w : WorkPackage} {d : Device} (m : Multiple cfg) (failsAt : Option ℕ)
    (hepoch : d.dagEpoch = w.epoch) (htarget : d.target = s.currentTarget) :
    Inv (prime s w d m failsAt).1 ∧ (∀ l ∈ (prime s w d m failsAt).2.launches, l.Matches) ∧
      (prime s w d m failsAt).2.submitted = [] := by
  have htarget' := setConstants_target (w := w) htarget
  cases failsAt with
  | some n =>
    exact ⟨⟨fun _ h => (nomatch h), rfl⟩, matches_of_mem_primeLaunches hepoch rfl htarget', rfl⟩
  | none =>
    refine ⟨⟨?_, rfl, _, rfl, tracks_primed w m hepoch rfl htarget'⟩,
      matches_of_mem_primeLaunches hepoch rfl htarget', rfl⟩
    intro d' hd'
    cases hd'
    exact htarget'

/-- An iteration of the work loop. -/
theorem iterate_spec (hphase : s.phase = .running) (hinv : Inv s) (w : WorkPackage)
    (multiple : Option (Multiple cfg)) (failsAt : Option ℕ) :
    Inv (iterate s w multiple failsAt).1 ∧
      (∀ l ∈ (iterate s w multiple failsAt).2.launches, l.Matches) ∧
      (iterate s w multiple failsAt).2.submitted = [] := by
  have hquiet : ∀ l ∈ ({} : Output).launches, l.Matches := fun l hl => (nomatch hl)
  obtain ⟨htarget, hdag⟩ := hinv
  rw [hphase] at hdag
  unfold iterate
  split
  · exact ⟨⟨htarget, by rw [hphase]; exact hdag⟩, hquiet, rfl⟩
  split
  · exact ⟨⟨fun _ h => (nomatch h), rfl, rfl⟩, hquiet, rfl⟩
  next hepoch =>
  split
  · exact ⟨⟨htarget, by rw [hphase]; exact hdag⟩, hquiet, rfl⟩
  split
  next hdev =>
    exact ⟨⟨htarget, hdev⟩, hquiet, rfl⟩
  next d hdev =>
    exact prime_spec _ _ ((hdag d hdev).trans (not_not.1 hepoch).symm) (htarget d hdev)

/-- A pass of the inner loop: the next launch matches, and the results read are submitted
under the launch in flight. -/
theorem streamPass_spec {q : Search cfg} {d : Device} (hdev : s.device = some d)
    (htarget : d.target = s.currentTarget) (hlast : s.last = q.package) (htracks : Tracks d q)
    (hlt : q.streamIdx < cfg.cuStreamSize) (gids : List (BitVec 32)) (shouldStop : Bool) :
    Inv (streamPass s q d gids shouldStop).1 ∧
      (∀ l ∈ (streamPass s q d gids shouldStop).2.launches, l.Matches) ∧
      ∀ sol ∈ (streamPass s q d gids shouldStop).2.submitted, ∃ gid ∈ gids,
        sol.nonce = (q.inFlight q.streamIdx).startNonce + gid.setWidth 64 ∧
        sol.work = (q.inFlight q.streamIdx).package := by
  have hdevice : ∀ d', s.device = some d' → d'.target = s.currentTarget := by
    intro d' hd'
    rw [hdev] at hd'
    cases hd'
    exact htarget
  unfold streamPass
  split
  next hbusy =>
    obtain ⟨hpackage, hstart⟩ := htracks.inFlight q.streamIdx hlt hbusy
    rw [lag_self, ← Multiple.streamBlocks_eq] at hstart
    refine ⟨?_, ?_, ?_⟩
    · cases s.done with
      | true =>
        refine ⟨hdevice, hlast, d, hdev, htracks.retire.advance hlt ?_⟩
        simp [Search.retire]
      | false => exact ⟨hdevice, hlast, d, hdev, htracks.relaunch_advance hlt⟩
    · intro l hl
      cases hdone : s.done with
      | true => simp [hdone] at hl
      | false =>
        simp only [hdone, Bool.false_eq_true, if_false, List.mem_singleton] at hl
        subst hl
        exact ⟨htracks.epoch, htracks.header, htracks.target⟩
    · intro sol hsol
      obtain ⟨gid, hgid, rfl⟩ := List.mem_map.1 hsol
      exact ⟨gid, List.mem_of_mem_take hgid, by rw [hstart], hpackage.symm⟩
  next hfree =>
    exact ⟨⟨hdevice, hlast, d, hdev, htracks.advance hlt hfree⟩, fun l hl => (nomatch hl),
      fun sol hsol => (nomatch hsol)⟩

/-- A step that shows nothing. -/
theorem spec_of_quiet {e : Event cfg} (hquiet : (step s e).2 = {}) (hinv : Inv (next s e)) :
    Inv (next s e) ∧ Attributed s e := by
  refine ⟨hinv, ?_, ?_⟩ <;> rw [hquiet]
  · exact fun l hl => (nomatch hl)
  · exact fun sol hsol => (nomatch hsol)

/-- **One step** keeps the invariant and shows what it must. -/
theorem step_spec (hinv : Inv s) (e : Event cfg) : Inv (next s e) ∧ Attributed s e := by
  have hidle (h : step s e = (s, {})) : Inv (next s e) ∧ Attributed s e :=
    spec_of_quiet (by rw [h]) (by rwa [next, h])
  obtain ⟨htarget, hphase⟩ := id hinv
  cases e with
  | call c => exact spec_of_quiet rfl ⟨htarget, hphase⟩
  | kick =>
    refine spec_of_quiet rfl ?_
    simp only [next, step]
    split
    · exact hinv
    · exact ⟨htarget, hphase⟩
  | start =>
    cases hp : s.phase with
    | stopped =>
      rw [hp] at hphase
      refine spec_of_quiet (by simp only [step, hp]) ?_
      simp only [next, step, hp]
      exact ⟨htarget, fun d hd => absurd (hphase.symm.trans hd) (by simp)⟩
    | _ => exact hidle (by simp only [step, hp])
  | stop => exact spec_of_quiet rfl ⟨fun _ h => (nomatch h), rfl⟩
  | iterate multiple failsAt =>
    rcases hw : s.miner.readWork with _ | w
    · exact hidle (by simp only [step, hw]; split <;> simp_all)
    cases hp : s.phase with
    | running =>
      obtain ⟨hnext, hlaunches, hsubmitted⟩ := iterate_spec hp hinv w multiple failsAt
      have hstep : step s (.iterate multiple failsAt) = iterate s w multiple failsAt := by
        simp only [step, hp, hw]
      refine ⟨by rwa [next, hstep], by rwa [hstep], ?_⟩
      rw [hstep, hsubmitted]
      exact fun sol hsol => (nomatch hsol)
    | _ => exact hidle (by simp only [step, hp, hw])
  | initEpochDone =>
    cases hp : s.phase with
    | initializing w =>
      rw [hp] at hphase
      refine spec_of_quiet (by simp only [step, hp]) ?_
      simp only [next, step, hp]
      refine ⟨fun d hd => ?_, fun d hd => ?_⟩
      · cases hd
        exact hphase.2.symm
      · cases hd
        rfl
    | _ => exact hidle (by simp only [step, hp])
  | initEpochFailed what =>
    cases hp : s.phase with
    | initializing w =>
      rw [hp] at hphase
      refine spec_of_quiet (by simp only [step, hp]) ?_
      simp only [next, step, hp]
      exact ⟨htarget, hphase.1⟩
    | _ => exact hidle (by simp only [step, hp])
  | round =>
    cases hp : s.phase with
    | searching q =>
      rw [hp] at hphase
      obtain ⟨hlast, d, hdev, htracks⟩ := hphase
      refine spec_of_quiet (by simp only [step, hp]; split_ifs <;> rfl) ?_
      simp only [next, step, hp]
      split_ifs with hmid hbusy
      · exact hinv
      · refine ⟨htarget, hlast, d, hdev, htracks.restart ?_⟩
        exact le_antisymm htracks.streamIdx_le (not_lt.1 hmid)
      · refine ⟨htarget, fun d' hd' => ?_⟩
        rw [hdev] at hd'
        cases hd'
        rw [hlast]
        exact htracks.epoch
    | _ => exact hidle (by simp only [step, hp])
  | stream gids shouldStop =>
    cases hp : s.phase with
    | searching q =>
      rw [hp] at hphase
      obtain ⟨hlast, d, hdev, htracks⟩ := hphase
      by_cases hlt : q.streamIdx < cfg.cuStreamSize
      · have hstep : step s (.stream gids shouldStop) = streamPass s q d gids shouldStop := by
          simp only [step, hp, hdev, if_pos hlt]
        obtain ⟨hnext, hlaunches, hsubmitted⟩ :=
          streamPass_spec hdev (htarget d hdev) hlast htracks hlt gids shouldStop
        refine ⟨by rwa [next, hstep], by rwa [hstep], ?_⟩
        rw [hstep]
        exact fun sol hsol => ⟨q, gids, shouldStop, hp, rfl, hsubmitted sol hsol⟩
      · exact hidle (by simp only [step, hp, hdev, if_neg hlt])
    | _ => exact hidle (by simp only [step, hp])

end Step

/-- **Every result of the CUDA miner is attributed to its launch.**  Along every run each
launch matches its package and each solution carries the package and the start nonce of
the launch whose results were read; and in the state after it, a search that is under way
with all its streams busy has covered consecutive batches of nonces. -/
theorem results_attributed (m : Multiple cfg) (es : List (Event cfg)) :
    Along next Attributed { multiple := m } es ∧
      ∀ q, (run next { multiple := m } es).phase = .searching q → q.AllBusy → q.Covers := by
  have h0 : Inv ({ multiple := m } : State cfg) := ⟨fun _ h => (nomatch h), rfl⟩
  have hstep : ∀ s (e : Event cfg), Inv s → Inv (next s e) := fun s e h => (step_spec h e).1
  have halong : Along next Attributed { multiple := m } es :=
    along_of_inv h0 (fun s e h => (step_spec h e).2) hstep es
  refine ⟨halong, fun q hq hall => ?_⟩
  obtain ⟨-, hphase⟩ := halong.run_inv h0 fun s e h _ => hstep s e h
  rw [hq] at hphase
  obtain ⟨-, d, -, htracks⟩ := hphase
  exact Search.covers_of_consecutive (htracks.launched hall).1

/-- Two streams of 128 threads: the first round after priming reads the result `5` of the
launch that primed the second stream, 128000 nonces after the start. -/
example :
    let cfg : Config := ⟨2, .inr (.inl rfl), 128, 0⟩
    let w : WorkPackage := { header := fun _ => 1, epoch := 7, startNonce := 1000 }
    let es : List (Event cfg) := [.call (.setWorkBegin w), .call .setWorkEnd, .start,
      .iterate none none, .initEpochDone, .iterate none none, .round, .stream [] false]
    (step (run next { multiple := ⟨1000, by decide⟩ } es) (.stream [5] false)).2.submitted.map
      Solution.nonce = [129005] := by
  decide +kernel

end CUDAMiner
end EtcMiner
