/-
# The share target of a job

A job in the modes 0 and 1 carries its target as a text.  "coinmine.pl fix" in `processResponse`
(`libpool/stratum/EthStratumClient.cpp`) takes the first two characters of a text shorter than 66 for
`0x` and fills up with zeros after them, whatever they are; `h256` then reads 63 or 64 digits, and
makes zero of any other number of them.

With `0x` and at most 64 digits the boundary is the number that the text denotes.  Without `0x` the
first two digits are lost.  More digits give a zero boundary, which `getHashesToTarget` rejects as
long as the session has no difficulty of its own (`shareTarget_faithful_iff`).
-/

import EtcMiner.Common.HexCodec
import EtcMiner.Stratum.BlockNumber

namespace EtcMiner
namespace Stratum

open Common Eth Lib

/-- The text starts with `0x`. -/
def hasMarker (text : List Char) : Prop := text.take 2 = ['0', 'x']

instance (text : List Char) : Decidable (hasMarker text) := inferInstanceAs (Decidable (_ = _))

/-- The boundary that is read from a share target. -/
def boundaryOf (text : List Char) : Option H256 := (fixShareTarget text).bind h256OfString

/-- The texts of which a zero boundary is made. -/
def TargetLost (text : List Char) : Prop :=
  if hasMarker text then 64 < (digitsOf text).length else 66 ≤ text.length ∨ hexValue (text.drop 2) = 0

/-- When the boundary is the number that the text denotes, or the job is rejected in a session with
the difficulty `nextWorkDifficulty`. -/
def ShareTargetCondition (text : List Char) (nextWorkDifficulty : ℚ) : Prop :=
  (hasMarker text ∧ (digitsOf text).length ≤ 64) ∨
  (¬ hasMarker text ∧ (text.length < 2 ∨ text.length < 66 ∧ hexValue (text.take 2) = 0)) ∨
  (TargetLost text ∧ (hexValue (digitsOf text) = 0 ∨ nextWorkDifficulty = 0))

section Text

variable {text : List Char}

theorem digitsOf_of_hasMarker (h : hasMarker text) : digitsOf text = text.drop 2 := if_pos h

theorem digitsOf_of_not_hasMarker (h : ¬ hasMarker text) : digitsOf text = text := if_neg h

theorem length_of_hasMarker (h : hasMarker text) : text.length = (digitsOf text).length + 2 := by
  have hlength := congrArg List.length h
  rw [List.length_take] at hlength
  rw [digitsOf_of_hasMarker h, List.length_drop]
  simp at hlength
  omega

/-- The number of a boundary that is read from hex digits. -/
theorem arith_denotedHash (s : List Char) : FixedHash.arith (denotedHash s) =
    if (digitsOf s).length = 63 ∨ (digitsOf s).length = 64 then hexValue (digitsOf s) else 0 := by
  unfold denotedHash
  split_ifs with hlength
  · have hlt : hexValue (digitsOf s) < 2 ^ (8 * 32) :=
      calc hexValue (digitsOf s) < 16 ^ (digitsOf s).length := hexValue_lt _
        _ ≤ 16 ^ 64 := Nat.pow_le_pow_right (by omega) (by omega)
        _ = 2 ^ (8 * 32) := by norm_num
    rw [← FixedHash.toNat_toArith, FixedHash.toArith_ofArith, BitVec.toNat_ofNat, Nat.mod_eq_of_lt hlt]
  · rw [← FixedHash.toNat_toArith, FixedHash.toArith_ofArith]
    rfl

/-- The digits of a text that has been filled up. -/
theorem digitsOf_filled (zeros : ℕ) (rest : List Char) :
    digitsOf ('0' :: 'x' :: List.replicate zeros '0' ++ rest) = List.replicate zeros '0' ++ rest := if_pos rfl

/-- A text of two characters or more, and fewer than 66, is filled up to 64 digits. -/
theorem boundaryOf_filled (hhex : ∀ c ∈ text.drop 2, isHexDigit c) (hlo : 2 ≤ text.length) (hhi : text.length < 66) :
    ∃ b, boundaryOf text = some b ∧ FixedHash.arith b = hexValue (text.drop 2) := by
  have hall : (List.replicate (66 - text.length) '0' ++ text.drop 2).all isHexDigit = true := by
    rw [List.all_append, Bool.and_eq_true]
    exact ⟨by simp [List.all_replicate]; right; decide, List.all_eq_true.2 hhex⟩
  have hlength : (List.replicate (66 - text.length) '0' ++ text.drop 2).length = 64 := by
    simp
    omega
  refine ⟨denotedHash ('0' :: 'x' :: List.replicate (66 - text.length) '0' ++ text.drop 2), ?_, ?_⟩
  · rw [boundaryOf, fixShareTarget, if_pos hhi, if_neg (by omega), Option.bind_some, h256OfString_eq, digitsOf_filled,
      if_pos hall]
  · rw [arith_denotedHash, digitsOf_filled, if_pos (.inr hlength), hexValue_append, hexValue_replicate_zero, Nat.zero_mul,
      Nat.zero_add]

/-- A text of 66 characters or more is read as it is. -/
theorem boundaryOf_long (hhex : ∀ c ∈ digitsOf text, isHexDigit c) (hlong : 66 ≤ text.length) :
    ∃ b, boundaryOf text = some b ∧
      FixedHash.arith b = if (digitsOf text).length = 64 then hexValue (digitsOf text) else 0 := by
  have hmany : (digitsOf text).length ≠ 63 := by
    by_cases hmark : hasMarker text
    · have := length_of_hasMarker hmark
      omega
    · rw [digitsOf_of_not_hasMarker hmark]
      omega
  refine ⟨denotedHash text, ?_, ?_⟩
  · rw [boundaryOf, fixShareTarget, if_neg (by omega), Option.bind_some, h256OfString_eq,
      if_pos (List.all_eq_true.2 hhex)]
  · rw [arith_denotedHash]
    simp only [hmany, false_or]

/-- **What is read is what the text denotes**, or it is rejected. -/
theorem boundaryOf_iff (hhex : ∀ c ∈ digitsOf text, isHexDigit c) (q : ℚ) :
    (∀ b, boundaryOf text = some b → FixedHash.arith b = hexValue (digitsOf text) ∨ q = 0 ∧ FixedHash.arith b = 0) ↔
      ShareTargetCondition text q := by
  have hread {b : H256} (hb : boundaryOf text = some b) : (∀ b, boundaryOf text = some b →
      FixedHash.arith b = hexValue (digitsOf text) ∨ q = 0 ∧ FixedHash.arith b = 0) ↔
        FixedHash.arith b = hexValue (digitsOf text) ∨ q = 0 ∧ FixedHash.arith b = 0 := by
    simp [hb]
  unfold ShareTargetCondition TargetLost
  by_cases hmark : hasMarker text
  · have hlength := length_of_hasMarker hmark
    have hdigits := digitsOf_of_hasMarker hmark
    simp only [hmark, not_true, false_and, false_or, true_and, if_true]
    rcases Nat.lt_or_ge 64 (digitsOf text).length with hlong | hfits
    · obtain ⟨b, hb, harith⟩ := boundaryOf_long hhex (by omega)
      rw [if_neg (by omega)] at harith
      rw [hread hb, harith]
      simp [hlong, hlong.not_ge, eq_comm (a := 0)]
    · refine iff_of_true ?_ (.inl hfits)
      rcases Nat.lt_or_ge text.length 66 with hshort | hfull
      · obtain ⟨b, hb, harith⟩ := boundaryOf_filled (hdigits ▸ hhex) (by omega) hshort
        exact (hread hb).2 (.inl (hdigits ▸ harith))
      · obtain ⟨b, hb, harith⟩ := boundaryOf_long hhex hfull
        rw [if_pos (by omega)] at harith
        exact (hread hb).2 (.inl harith)
  · have hdigits := digitsOf_of_not_hasMarker hmark
    rw [hdigits] at hhex
    simp only [hmark, not_false_iff, false_and, false_or, true_and, if_false]
    rcases Nat.lt_or_ge text.length 2 with htiny | htwo
    · refine iff_of_true (fun b hb => ?_) (.inl (.inl htiny))
      rw [boundaryOf, fixShareTarget, if_pos (by omega), if_pos htiny] at hb
      cases hb
    rcases Nat.lt_or_ge text.length 66 with hshort | hlong
    · obtain ⟨b, hb, harith⟩ := boundaryOf_filled (fun c hc => hhex c (List.mem_of_mem_drop hc)) htwo hshort
      have hsplit : hexValue text = hexValue (text.take 2) * 16 ^ (text.drop 2).length + hexValue (text.drop 2) := by
        rw [← hexValue_append, List.take_append_drop]
      have hlost : hexValue (text.drop 2) = hexValue text ↔ hexValue (text.take 2) = 0 := by
        rw [hsplit, eq_comm, Nat.add_eq_right, Nat.mul_eq_zero, or_iff_left (by positivity)]
      have hzero : hexValue text = 0 → hexValue (text.take 2) = 0 := fun h => hlost.1 (by omega)
      rw [hread hb, harith, hdigits, hlost]
      simp only [htwo.not_gt, hshort, hshort.not_ge, false_or, true_and]
      tauto
    · obtain ⟨b, hb, harith⟩ := boundaryOf_long (hdigits.symm ▸ hhex) hlong
      rw [hdigits, if_neg (by omega)] at harith
      rw [hread hb, harith, hdigits]
      simp [htwo.not_gt, hlong, hlong.not_gt, eq_comm (a := 0)]

end Text

section Job

variable (rt : Runtime) (now : ℤ)

/-- A job in the modes 0 and 1 that the client `c` takes, up to its share target of hex digits. -/
structure TargetJob (c : Client) where
  message : Json
  isJob : isJob rt c.conn message = some true
  mode : c.conn.stratumMode = STRATUM ∨ c.conn.stratumMode = ETHPROXY
  session : Session
  session_eq : c.session = some session
  subscribed : session.subscribed = true
  free : c.newjobprocessed = false
  jPrm : Json
  prmIdx : ℕ
  params : jobParams c.conn.stratumMode message = some (jPrm, prmIdx)
  isArray : jPrm.isArray = true
  not_empty : ¬ jPrm.empty = true
  job : List Char
  job_eq : stringParam rt jPrm 0 = some job
  header : List Char
  header_eq : stringParam rt jPrm prmIdx = some header
  seed : List Char
  seed_eq : stringParam rt jPrm (prmIdx + 1) = some seed
  target : List Char
  target_eq : stringParam rt jPrm (prmIdx + 2) = some target
  hex : ∀ c ∈ digitsOf target, isHexDigit c

/-- The block number of a job throws. -/
def BlockThrows (mode : ℕ) (jPrm : Json) (prmIdx : ℕ) : Prop :=
  mode = ETHPROXY ∧ prmIdx < jPrm.size ∧ (stringParam rt jPrm prmIdx).bind blockOf = none

/-- Another field of the job throws. -/
def TargetJob.Obstructed {c : Client} (j : TargetJob rt c) : Prop :=
  BlockThrows rt c.conn.stratumMode j.jPrm (j.prmIdx + 3) ∨ h256OfString j.seed = none ∨ h256OfString j.header = none

/-- The job is rejected with an exception. -/
def Rejects (x : ClientM Unit) (c : Client) : Prop := ∃ e c', x c = .error e c'

/-- The boundary of the package is the number `v`. -/
def Bounds (v : ℕ) (x : ClientM Unit) (c : Client) : Prop :=
  ∃ c', x c = .ok () c' ∧ FixedHash.arith c'.current.boundary = v

variable {rt now} {c : Client}

theorem rejects_expect_none {α : Type} (f : α → ClientM Unit) : Rejects (expect none >>= f) c := ⟨_, _, rfl⟩

/-- What is done after the boundary is read. -/
theorem difficulty_run {s : Session} (hs : c.session = some s) :
    (do stampJob now; setDifficulty rt; signalJob : ClientM Unit) c =
      match jobDifficulty rt s c.current.boundary with
      | none => .error .stdException { c with currentTimestamp := now }
      | some q => .ok () { c with
          currentTimestamp := now
          current := { c.current with difficulty := q }
          newjobprocessed := true } := by
  unfold stampJob setDifficulty
  rw [run_modify_bind]
  simp only [bind_assoc]
  rw [run_bind_of_ok (session_run (c := { c with currentTimestamp := now }) hs), run_get_bind]
  cases jobDifficulty rt s c.current.boundary <;> rfl

/-- The difficulty is known unless it is to be computed from a zero boundary. -/
theorem jobDifficulty_eq_none_iff (s : Session) (b : H256) :
    jobDifficulty rt s b = none ↔ s.nextWorkDifficulty = 0 ∧ FixedHash.arith b = 0 := by
  have hzero : b = (fun _ => 0) ↔ FixedHash.arith b = 0 := by
    rw [← FixedHash.ofArith_zero, ← FixedHash.toArith_inj, FixedHash.toArith_ofArith, ← FixedHash.toNat_toArith]
    exact BitVec.toNat_eq
  unfold jobDifficulty
  split_ifs with hdifficulty
  · simp [hdifficulty]
  · have hnone := getHashesToTarget_hex_eq_none_iff b
    rw [and_iff_right (not_not.1 hdifficulty), ← hzero, ← hnone]
    cases getHashesToTarget (FixedHash.hex b) <;> simp

/-- A job is rejected where its difficulty is not known. -/
theorem difficulty_outcome {s : Session} (hs : c.session = some s) :
    if s.nextWorkDifficulty = 0 ∧ FixedHash.arith c.current.boundary = 0 then
      Rejects (do stampJob now; setDifficulty rt; signalJob) c
    else Bounds (FixedHash.arith c.current.boundary) (do stampJob now; setDifficulty rt; signalJob) c := by
  have hnone : jobDifficulty rt s c.current.boundary = none ↔ _ := jobDifficulty_eq_none_iff s c.current.boundary
  unfold Rejects Bounds
  rw [difficulty_run hs]
  cases hq : jobDifficulty rt s c.current.boundary with
  | none =>
    rw [if_pos (hnone.1 hq)]
    exact ⟨_, _, rfl⟩
  | some q =>
    rw [if_neg fun h => by simp [hnone.2 h] at hq]
    exact ⟨_, rfl, rfl⟩

/-- **The rest of a job** sets the boundary that is read, or rejects the job. -/
theorem jobRest_outcome {s : Session} (hs : c.session = some s) (header seed target : List Char) :
    if h256OfString seed = none ∨ h256OfString header = none then Rejects (jobRest rt now header seed target) c
    else match boundaryOf target with
      | none => Rejects (jobRest rt now header seed target) c
      | some b =>
        if s.nextWorkDifficulty = 0 ∧ FixedHash.arith b = 0 then Rejects (jobRest rt now header seed target) c
        else Bounds (FixedHash.arith b) (jobRest rt now header seed target) c := by
  unfold jobRest boundaryOf
  cases hfix : fixShareTarget target with
  | none =>
    split_ifs
    · exact rejects_expect_none _
    · exact rejects_expect_none _
  | some text =>
    simp only [expect, ofOption_some_bind, Option.bind_some]
    cases hseed : h256OfString seed with
    | none => exact rejects_expect_none _
    | some seedHash =>
      cases hheader : h256OfString header with
      | none => exact ⟨_, _, rfl⟩
      | some headerHash =>
        simp only [ofOption_some_bind, reduceCtorEq, or_self, if_false]
        cases hb : h256OfString text with
        | none => exact ⟨_, _, rfl⟩
        | some b =>
          simp only [ofOption_some_bind]
          exact difficulty_outcome (c := { c with current :=
            { c.current with seed := seedHash, header := headerHash, boundary := b } }) hs

/-- The block number leaves the session alone, or it throws. -/
theorem readBlock_outcome (mode : ℕ) (jPrm : Json) (prmIdx : ℕ) :
    if mode = ETHPROXY ∧ prmIdx < jPrm.size ∧ (stringParam rt jPrm prmIdx).bind blockOf = none then
      Rejects (readBlock rt mode jPrm prmIdx) c
    else ∃ b, readBlock rt mode jPrm prmIdx c = .ok () { c with current := { c.current with block := b } } := by
  by_cases hread : mode = ETHPROXY ∧ prmIdx < jPrm.size
  · obtain ⟨rfl, hsize⟩ := hread
    cases htext : stringParam rt jPrm prmIdx with
    | none =>
      rw [if_pos ⟨rfl, hsize, rfl⟩]
      unfold Rejects readBlock
      rw [modifyCurrent, run_modify_bind, if_pos ⟨rfl, hsize⟩, htext]
      exact ⟨_, _, rfl⟩
    | some text =>
      cases hb : blockOf text with
      | none =>
        rw [if_pos ⟨rfl, hsize, hb⟩]
        exact ⟨_, readBlock_run_none hsize htext hb⟩
      | some b =>
        rw [if_neg fun h => by simp [hb] at h]
        exact ⟨b, readBlock_run hsize htext hb⟩
  · rw [if_neg fun h => hread ⟨h.1, h.2.1⟩]
    unfold readBlock
    rw [modifyCurrent, run_modify_bind, if_neg hread]
    exact ⟨-1, rfl⟩

theorem TargetJob.isSubscribed (j : TargetJob rt c) : isSubscribed c = true := by
  unfold Stratum.isSubscribed
  rw [j.session_eq]
  exact j.subscribed

/-- A job up to its block number. -/
theorem TargetJob.processResponse_run (j : TargetJob rt c) :
    processResponse rt now j.message c = (do
      readBlock rt c.conn.stratumMode j.jPrm (j.prmIdx + 3)
      jobRest rt now j.header j.seed j.target) { c with current := { c.current with job := j.job } } := by
  have hmode : c.conn.stratumMode ≠ ETHEREUMSTRATUM2 ∧ c.conn.stratumMode ≠ ETHEREUMSTRATUM := by
    rcases j.mode with h | h <;> rw [h] <;> decide
  rw [processResponse_of_isJob rt now j.isJob, if_pos hmode.1]
  unfold notify
  rw [run_get_bind, if_neg (by simp [j.isSubscribed, j.free])]
  unfold notifyJob
  simp only [expect, j.params, ofOption_some_bind]
  rw [if_pos ⟨j.isArray, j.not_empty⟩, j.job_eq, ofOption_some_bind, modifyCurrent, run_modify_bind, if_neg hmode.2]
  unfold notifyStratum
  simp only [expect, j.header_eq, j.seed_eq, j.target_eq, ofOption_some_bind]
  rfl

/-- A handler that returns has one boundary. -/
theorem Bounds.rejects_or_iff {x : ClientM Unit} {v w : ℕ} (h : Bounds v x c) : (Rejects x c ∨ Bounds w x c) ↔ v = w := by
  obtain ⟨c', hrun, rfl⟩ := h
  unfold Rejects Bounds
  rw [hrun]
  simp

/-- **A share target is never silently changed**: for every job the boundary is the number that its
target denotes, or the job is rejected, exactly under the condition. -/
theorem shareTarget_faithful_iff (rt : Runtime) (now : ℤ) (c : Client) (j : TargetJob rt c) :
    (Rejects (processResponse rt now j.message) c ∨
      Bounds (hexValue (digitsOf j.target)) (processResponse rt now j.message) c) ↔
      (j.Obstructed ∨ ShareTargetCondition j.target j.session.nextWorkDifficulty) := by
  have hblock := @readBlock_outcome rt { c with current := { c.current with job := j.job } }
    c.conn.stratumMode j.jPrm (j.prmIdx + 3)
  rw [← boundaryOf_iff j.hex]
  unfold TargetJob.Obstructed BlockThrows
  split_ifs at hblock with hthrows
  · obtain ⟨e, c', hrun⟩ := hblock
    refine iff_of_true (.inl ⟨e, c', ?_⟩) (.inl (.inl hthrows))
    rw [j.processResponse_run, run_bind_of_error hrun]
  obtain ⟨b, hrun⟩ := hblock
  have hrest := @jobRest_outcome rt now { c with current := { c.current with job := j.job, block := b } } _
    j.session_eq j.header j.seed j.target
  have hprocess : processResponse rt now j.message c = jobRest rt now j.header j.seed j.target
      { c with current := { c.current with job := j.job, block := b } } := by
    rw [j.processResponse_run, run_bind_of_ok hrun]
  unfold Rejects Bounds at hrest
  rw [← hprocess] at hrest
  split_ifs at hrest with hfields
  · exact iff_of_true (.inl hrest) (.inl (.inr hfields))
  rw [or_iff_right (not_or.2 ⟨hthrows, hfields⟩)]
  cases hread : boundaryOf j.target with
  | none =>
    rw [hread] at hrest
    exact iff_of_true (.inl hrest) (by simp)
  | some boundary =>
    rw [hread] at hrest
    dsimp only at hrest
    split_ifs at hrest with hzero
    · refine iff_of_true (.inl hrest) ?_
      rintro _ ⟨⟩
      exact .inr hzero
    · rw [Bounds.rejects_or_iff hrest]
      simp [hzero]

/-- An eth-proxy job with the share target `target`. -/
def targetMessage (target : String) : Json :=
  .obj [("id".toList, .int 0), ("result".toList, .arr [.str onesHash, .str onesHash, .text target])]

/-- The target `0xffff`. -/
theorem shareTarget_faithful_marked : ∃ j : TargetJob echoRuntime proxyClient, j.message = targetMessage "0xffff" ∧
    (Rejects (processResponse echoRuntime 0 j.message) proxyClient ∨
      Bounds (hexValue (digitsOf "0xffff".toList)) (processResponse echoRuntime 0 j.message) proxyClient) := by
  refine ⟨⟨targetMessage "0xffff", by decide +kernel, .inr rfl, _, rfl, rfl, rfl, _, 0, rfl, rfl, by decide, _, rfl, _, rfl, _,
    rfl, "0xffff".toList, rfl, List.all_eq_true.1 (by decide)⟩, rfl, ?_⟩
  exact (shareTarget_faithful_iff echoRuntime 0 proxyClient _).2 (.inr (.inl ⟨by decide, by decide⟩))

/-- **The target `ffff` is turned into `ff`**, and the job is accepted. -/
theorem unmarked_target_changed : ∃ j : TargetJob echoRuntime proxyClient, j.message = targetMessage "ffff" ∧
    Bounds 0xff (processResponse echoRuntime 0 j.message) proxyClient ∧ hexValue (digitsOf j.target) = 0xffff ∧
    ¬ (Rejects (processResponse echoRuntime 0 j.message) proxyClient ∨
      Bounds (hexValue (digitsOf j.target)) (processResponse echoRuntime 0 j.message) proxyClient) := by
  have hbounds : Bounds 0xff (processResponse echoRuntime 0 (targetMessage "ffff")) proxyClient := by
    have hboundary : FixedHash.arith
        (final (processResponse echoRuntime 0 (targetMessage "ffff")) proxyClient).current.boundary = 0xff := by
      decide +kernel
    have hthrown : thrown (processResponse echoRuntime 0 (targetMessage "ffff")) proxyClient = none := by
      decide +kernel
    unfold thrown at hthrown
    unfold final at hboundary
    cases hrun : processResponse echoRuntime 0 (targetMessage "ffff") proxyClient with
    | ok u c =>
      rw [hrun] at hboundary
      exact ⟨c, hrun, hboundary⟩
    | error e c => simp [hrun] at hthrown
  have hvalue : hexValue (digitsOf "ffff".toList) = 0xffff := by decide
  refine ⟨⟨targetMessage "ffff", by decide +kernel, .inr rfl, _, rfl, rfl, rfl, _, 0, rfl, rfl, by decide, _, rfl, _, rfl, _,
    rfl, "ffff".toList, rfl, List.all_eq_true.1 (by decide)⟩, rfl, hbounds, hvalue, ?_⟩
  rw [hbounds.rejects_or_iff, hvalue]
  decide

end Job

end Stratum
end EtcMiner
