/-
# The block number of an eth-proxy job

"Only some eth-proxy compatible implementations carry the block number": `processResponse` in
`libpool/stratum/EthStratumClient.cpp` reads the fourth field of a job into `m_current.block`, an
`int`, with `stoul`, and means to fall back to -1 where the field is no number or the number is too
large.  The block selects the epoch of the job.

`faithfulBlock` is that intention.  The handler keeps to it for a field without `0x`, for a numeral in
range, for one that `stoul` does not read because it has more than 64 bits, and where what it reads
happens to be -1 as an `int` (`block_faithful_iff`).  A number above `0x9660180` throws a pointer, which
`catch (const exception&)` does not take and which leaves `processResponse`; one of more than 31 bits
is cut off; and what follows the digits is ignored.
-/

import EtcMiner.Stratum.Framing
import EtcMiner.Stratum.JobMessage

namespace EtcMiner
namespace Stratum

open Common Eth Lib

-- the handlers are long sequences
set_option synthInstance.maxSize 100000

/-- The largest block number that is taken. -/
def maxBlock : ℕ := 0x9660180

/-- The number that a block field denotes: `0x` and hex digits. -/
def denotedBlock (text : List Char) : Option ℕ :=
  if text.take 2 = ['0', 'x'] ∧ text.drop 2 ≠ [] ∧ (text.drop 2).all isHexDigit then some (hexValue (text.drop 2))
  else none

/-- The block number that is meant: the one the field denotes, or -1. -/
def faithfulBlock (text : List Char) : ℤ :=
  match denotedBlock text with
  | some n => if n ≤ maxBlock then n else -1
  | none => -1

/-- The block number that the handler reads, if it does not throw. -/
def blockOf (text : List Char) : Option ℤ :=
  if text.take 2 = ['0', 'x'] then
    match stoull16 text with
    | none => some (-1)
    | some block => if 0x9660180 < toInt32 block then none else some (toInt32 block)
  else some (-1)

/-- When the handler reads the block number that is meant. -/
def BlockCondition (text : List Char) : Prop :=
  text.take 2 ≠ ['0', 'x'] ∨ (∃ n, denotedBlock text = some n ∧ n ≤ maxBlock) ∨ stoull16 text = none ∨
    ∃ v, stoull16 text = some v ∧ v.toNat % 2 ^ 32 = 2 ^ 32 - 1

section Text

variable {text : List Char}

/-- A field that denotes a number is read as that number, up to 64 bits. -/
theorem stoull16_of_denotedBlock {n : ℕ} (h : denotedBlock text = some n) :
    stoull16 text = if n < 2 ^ 64 then some (BitVec.ofNat 64 n) else none := by
  unfold denotedBlock at h
  split_ifs at h with hform
  obtain ⟨htake, hne, hall⟩ := hform
  obtain rfl := Option.some.inj h
  have htext : '0' :: 'x' :: text.drop 2 = text := by
    rw [← List.take_append_drop 2 text, htake]
    simp
  have hread := stoull16_prefixed (List.all_eq_true.1 hall) hne
  rwa [htext] at hread

theorem toInt32_ofNat {n : ℕ} (hn : n ≤ maxBlock) : toInt32 (BitVec.ofNat 64 n) = n := by
  unfold maxBlock at hn
  unfold toInt32
  rw [BitVec.toInt_eq_toNat_cond]
  simp only [BitVec.toNat_setWidth, BitVec.toNat_ofNat]
  omega

theorem toInt32_eq_neg_one_iff (v : BitVec 64) : toInt32 v = -1 ↔ v.toNat % 2 ^ 32 = 2 ^ 32 - 1 := by
  unfold toInt32
  rw [BitVec.toInt_eq_toNat_cond]
  simp only [BitVec.toNat_setWidth]
  omega

theorem faithfulBlock_of_not (h : ¬ ∃ n, denotedBlock text = some n ∧ n ≤ maxBlock) : faithfulBlock text = -1 := by
  unfold faithfulBlock
  cases hn : denotedBlock text with
  | none => rfl
  | some n => exact if_neg fun hle => h ⟨n, hn, hle⟩

/-- **What is read is what is meant.** -/
theorem blockOf_eq_iff : blockOf text = some (faithfulBlock text) ↔ BlockCondition text := by
  unfold blockOf BlockCondition
  by_cases htake : text.take 2 = ['0', 'x']
  · by_cases hdenoted : ∃ n, denotedBlock text = some n ∧ n ≤ maxBlock
    · refine iff_of_true ?_ (.inr (.inl hdenoted))
      obtain ⟨n, hn, hle⟩ := hdenoted
      have hlt : n < 2 ^ 64 := by
        unfold maxBlock at hle
        omega
      have hmax : ¬ 0x9660180 < (n : ℤ) := by
        unfold maxBlock at hle
        omega
      have hfaithful : faithfulBlock text = n := by
        simp only [faithfulBlock, hn, if_pos hle]
      rw [if_pos htake, stoull16_of_denotedBlock hn, if_pos hlt, hfaithful]
      simp only [toInt32_ofNat hle, if_neg hmax]
    · rw [if_pos htake, faithfulBlock_of_not hdenoted]
      cases hread : stoull16 text with
      | none => simp
      | some v =>
        have hcondition : (text.take 2 ≠ ['0', 'x'] ∨ (∃ n, denotedBlock text = some n ∧ n ≤ maxBlock) ∨
            some v = none ∨ ∃ v', some v = some v' ∧ v'.toNat % 2 ^ 32 = 2 ^ 32 - 1) ↔ toInt32 v = -1 := by
          rw [toInt32_eq_neg_one_iff]
          simp [htake, hdenoted]
        rw [hcondition]
        dsimp only
        split_ifs with hmax
        · refine iff_of_false (by simp) fun hneg => ?_
          omega
        · exact Option.some_inj
  · rw [if_neg htake, faithfulBlock_of_not]
    · simp [htake]
    · rintro ⟨n, hn, -⟩
      unfold denotedBlock at hn
      rw [if_neg fun h => htake h.1] at hn
      cases hn

end Text

section Job

variable (rt : Runtime) (now : ℤ)

/-- A job in the modes 0 and 1 after its block number. -/
def jobRest (sHeaderHash sSeedHash sShareTarget : List Char) : ClientM Unit := do
  let sShareTarget ← expect (fixShareTarget sShareTarget)
  let seed ← expect (h256OfString sSeedHash)
  modifyCurrent fun w => { w with seed := seed }
  let header ← expect (h256OfString sHeaderHash)
  modifyCurrent fun w => { w with header := header }
  let boundary ← expect (h256OfString sShareTarget)
  modifyCurrent fun w => { w with boundary := boundary }
  stampJob now
  setDifficulty rt
  signalJob

/-- An eth-proxy job that the client `c` takes, with its fields. -/
structure ProxyJob (c : Client) where
  message : Json
  isJob : isJob rt c.conn message = some true
  mode : c.conn.stratumMode = ETHPROXY
  subscribed : isSubscribed c = true
  free : c.newjobprocessed = false
  jPrm : Json
  prmIdx : ℕ
  params : jobParams ETHPROXY message = some (jPrm, prmIdx)
  isArray : jPrm.isArray = true
  job : List Char
  job_eq : stringParam rt jPrm 0 = some job
  header : List Char
  header_eq : stringParam rt jPrm prmIdx = some header
  seed : List Char
  seed_eq : stringParam rt jPrm (prmIdx + 1) = some seed
  target : List Char
  target_eq : stringParam rt jPrm (prmIdx + 2) = some target
  block : List Char
  block_eq : stringParam rt jPrm (prmIdx + 3) = some block
  size : prmIdx + 3 < jPrm.size

/-- The block number as it is meant, and the rest of the job. -/
def ProxyJob.reference {c : Client} (j : ProxyJob rt c) : ClientM Unit := do
  modifyCurrent fun w => { w with job := j.job, block := faithfulBlock j.block }
  jobRest rt now j.header j.seed j.target

variable {rt now} {c : Client}

theorem ProxyJob.not_empty (j : ProxyJob rt c) : ¬ j.jPrm.empty = true := by
  have hsize := j.size
  have harray := j.isArray
  cases hjPrm : j.jPrm with
  | arr xs =>
    rw [hjPrm] at hsize
    have hpos : 0 < xs.length := Nat.zero_lt_of_lt hsize
    simpa [Json.empty] using List.ne_nil_of_length_pos hpos
  | _ => simp [hjPrm, Json.isArray] at harray

/-- A job up to its block number. -/
theorem ProxyJob.processResponse_run (j : ProxyJob rt c) :
    processResponse rt now j.message c = (do
      readBlock rt ETHPROXY j.jPrm (j.prmIdx + 3)
      jobRest rt now j.header j.seed j.target) { c with current := { c.current with job := j.job } } := by
  rw [processResponse_of_isJob rt now j.isJob, j.mode, if_pos (by decide)]
  unfold notify
  rw [run_get_bind, if_neg (by simp [j.subscribed, j.free]), j.mode]
  unfold notifyJob
  simp only [expect, j.params, ofOption_some_bind]
  rw [if_pos ⟨j.isArray, j.not_empty⟩, j.job_eq, ofOption_some_bind, modifyCurrent, run_modify_bind,
    if_neg (by decide)]
  unfold notifyStratum
  simp only [expect, j.header_eq, j.seed_eq, j.target_eq, ofOption_some_bind]
  rfl

/-- The block number that is read. -/
theorem readBlock_run {jPrm : Json} {prmIdx : ℕ} {text : List Char} {b : ℤ} (hsize : prmIdx < jPrm.size)
    (htext : stringParam rt jPrm prmIdx = some text) (hb : blockOf text = some b) :
    readBlock rt ETHPROXY jPrm prmIdx c = .ok () { c with current := { c.current with block := b } } := by
  unfold readBlock
  rw [modifyCurrent, run_modify_bind, if_pos ⟨rfl, hsize⟩, htext]
  unfold blockOf at hb
  simp only [expect, ofOption_some_bind]
  split_ifs at hb ⊢
  · cases hread : stoull16 text with
    | none =>
      rw [hread] at hb
      cases hb
      rfl
    | some v =>
      simp only [hread] at hb ⊢
      split_ifs at hb with hmax
      cases hb
      rw [modifyCurrent, run_modify_bind, if_neg hmax]
      rfl
  · cases hb
    rfl

/-- A block number that is too large leaves the handler with a pointer. -/
theorem readBlock_run_none {jPrm : Json} {prmIdx : ℕ} {text : List Char} (hsize : prmIdx < jPrm.size)
    (htext : stringParam rt jPrm prmIdx = some text) (hb : blockOf text = none) :
    ∃ c', readBlock rt ETHPROXY jPrm prmIdx c = .error .foreignException c' := by
  unfold readBlock
  rw [modifyCurrent, run_modify_bind, if_pos ⟨rfl, hsize⟩, htext]
  unfold blockOf at hb
  simp only [expect, ofOption_some_bind]
  split_ifs at hb ⊢
  cases hread : stoull16 text with
  | none =>
    rw [hread] at hb
    cases hb
  | some v =>
    simp only [hread] at hb ⊢
    split_ifs at hb with hmax
    rw [modifyCurrent, run_modify_bind, if_pos hmax]
    exact ⟨_, rfl⟩

/-- The package has the block number `b`. -/
def HasBlock (b : ℤ) (c : Client) : Prop := c.current.block = b

/-- What the rest of a job throws is an exception that is caught, or the session is null. -/
def Proper (b : ℤ) (e : Fault) (c : Client) : Prop := e ≠ .foreignException ∧ HasBlock b c

instance (b : ℤ) : StableBase (HasBlock b) (Proper b) where
  stdException h := ⟨by decide, h⟩
  nullSession h _ := ⟨by decide, h⟩
  effects h _ := h
  currentTimestamp h _ := h
  authpending h _ := h
  pleas h _ := h
  unrecoverable h := h
  confirmed h := h

/-- A write that leaves the block number alone. -/
instance (b : ℤ) (job : WorkPackage → List Char) (boundary header seed : WorkPackage → H256) (epoch : WorkPackage → ℤ)
    (startNonce : WorkPackage → BitVec 64) (exSizeBytes : WorkPackage → BitVec 16) (difficulty : WorkPackage → ℚ) :
    Keeps (HasBlock b) (Proper b) (modifyCurrent fun w => ⟨job w, boundary w, header w, seed w, epoch w, w.block,
      startNonce w, exSizeBytes w, difficulty w⟩) :=
  keeps_modify fun _ hc => hc

instance (b : ℤ) : Keeps (HasBlock b) (Proper b) (stampJob now) := keeps_modify fun _ hc => hc

instance (b : ℤ) : Keeps (HasBlock b) (Proper b) signalJob := keeps_modify fun _ hc => hc

instance (b : ℤ) : Keeps (HasBlock b) (Proper b) (setDifficulty rt) := by
  unfold setDifficulty
  infer_instance

/-- The rest of a job leaves the block number. -/
theorem keeps_jobRest (rt : Runtime) (now b : ℤ) (header seed target : List Char) :
    Keeps (HasBlock b) (Proper b) (jobRest rt now header seed target) := by
  unfold jobRest
  infer_instance

/-- Different block numbers stay different. -/
theorem jobRest_inj {b b' : ℤ} {c c' : Client} {header seed target : List Char} (hc : HasBlock b c) (hc' : HasBlock b' c')
    (heq : jobRest rt now header seed target c = jobRest rt now header seed target c') : b = b' := by
  have hends := (keeps_jobRest rt now b header seed target).ends c hc
  have hends' := (keeps_jobRest rt now b' header seed target).ends c' hc'
  unfold Ends at hends hends'
  rw [heq] at hends
  cases hrun : jobRest rt now header seed target c' with
  | ok u m =>
    rw [hrun] at hends hends'
    exact hends.symm.trans hends'
  | error e m =>
    rw [hrun] at hends hends'
    exact hends.2.symm.trans hends'.2

/-- No pointer is thrown where the block number is as it is meant. -/
theorem ProxyJob.reference_ne (j : ProxyJob rt c) (c' : Client) :
    j.reference rt now c ≠ .error .foreignException c' := by
  intro hrun
  unfold ProxyJob.reference at hrun
  rw [modifyCurrent, run_modify_bind] at hrun
  have hproper : Proper (faithfulBlock j.block) .foreignException c' :=
    (keeps_jobRest rt now _ j.header j.seed j.target).of_error (by exact rfl) hrun
  exact hproper.1 rfl

/-- **The block number of a job is faithful or absent**, and the rest of the job is processed. -/
theorem block_faithful_iff (rt : Runtime) (now : ℤ) (c : Client) (j : ProxyJob rt c) :
    processResponse rt now j.message c = j.reference rt now c ↔ BlockCondition j.block := by
  rw [j.processResponse_run, ← blockOf_eq_iff]
  cases hb : blockOf j.block with
  | none =>
    obtain ⟨c', hrun⟩ := readBlock_run_none (c := { c with current := { c.current with job := j.job } }) j.size
      j.block_eq hb
    rw [run_bind_of_error hrun]
    exact iff_of_false (fun heq => j.reference_ne c' heq.symm) (by simp)
  | some b =>
    unfold ProxyJob.reference
    rw [run_bind_of_ok (readBlock_run j.size j.block_eq hb), modifyCurrent, run_modify_bind, Option.some_inj]
    constructor
    · exact jobRest_inj rfl rfl
    · rintro rfl
      rfl

/-- A client that has logged in to an eth-proxy pool. -/
def proxyClient : Client where
  conn := { stratumMode := ETHPROXY, stratumModeConfirmed := true }
  session := some { subscribed := true, authorized := true }
  pleas := { older := 0 }

/-- A hash of a job. -/
def onesHash : List Char := "0x".toList ++ List.replicate 64 '1'

/-- A job with the block number `block`. -/
def proxyMessage (block : String) : Json :=
  .obj [("id".toList, .int 0), ("result".toList, .arr [.str onesHash, .str onesHash, .str onesHash, .text block])]

/-- The job with the block number 16. -/
theorem block_faithful_sixteen : ∃ j : ProxyJob echoRuntime proxyClient, j.message = proxyMessage "0x10" ∧
    processResponse echoRuntime 0 j.message proxyClient = j.reference echoRuntime 0 proxyClient := by
  refine ⟨⟨proxyMessage "0x10", by decide +kernel, rfl, rfl, rfl, _, 0, rfl, rfl, _, rfl, _, rfl, _, rfl, _, rfl,
    "0x10".toList, rfl, by decide⟩, rfl, ?_⟩
  exact (block_faithful_iff echoRuntime 0 proxyClient _).2 (.inr (.inl ⟨16, by decide, by decide⟩))

/-- **A block number that is too large leaves the handler with an exception.** -/
theorem large_block_throws : ∃ j : ProxyJob echoRuntime proxyClient, j.message = proxyMessage "0x9660181" ∧
    ¬ processResponse echoRuntime 0 j.message proxyClient = j.reference echoRuntime 0 proxyClient := by
  refine ⟨⟨proxyMessage "0x9660181", by decide +kernel, rfl, rfl, rfl, _, 0, rfl, rfl, _, rfl, _, rfl, _, rfl, _, rfl,
    "0x9660181".toList, rfl, by decide⟩, rfl, fun heq => ?_⟩
  have hthrown : thrown (processResponse echoRuntime 0 (proxyMessage "0x9660181")) proxyClient =
      some .foreignException := by
    decide +kernel
  unfold thrown at hthrown
  cases hrun : processResponse echoRuntime 0 (proxyMessage "0x9660181") proxyClient with
  | ok u c => simp [hrun] at hthrown
  | error e c =>
    simp only [hrun, Option.some_inj] at hthrown
    subst hthrown
    exact ProxyJob.reference_ne _ c (heq.symm.trans hrun)

end Job

end Stratum
end EtcMiner
