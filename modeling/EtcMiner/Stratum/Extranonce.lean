/-
# The extranonce of a job

`processExtranonce` stores the number of digits of the extranonce and the word that starts
with them (`processExtranonce_of_extranonce`), and a job in the modes 2 and 3 takes both
over into its package (`describe_extranonce`).  So a package described while an extranonce
is in force carries it (`InForce.describe`).
-/

import EtcMiner.Stratum.Describe
import EtcMiner.Stratum.SubmitSolution

namespace EtcMiner
namespace Stratum

open Common Eth Lib

/-- The package carries the extranonce `x`. -/
structure HasExtranonce (x : Extranonce) (w : WorkPackage) : Prop where
  startNonce : w.startNonce = x.word
  exSizeBytes : w.exSizeBytes = BitVec.ofNat 16 x.digits.length

/-- The extranonce of the session is the one that `processExtranonce` stores for `x`. -/
def InForce (x : Extranonce) (c : Client) : Prop :=
  ∃ s, c.session = some s ∧ ∃ c₀ c₁ s₁, processExtranonce x.digits c₀ = .ok () c₁ ∧
    c₁.session = some s₁ ∧ s.extraNonce = s₁.extraNonce ∧
    s.extraNonceSizeBytes = s₁.extraNonceSizeBytes

/-- `enonce.resize(16, '0')`. -/
def filled (enonce : List Char) : List Char := enonce.take 16 ++ List.replicate (16 - enonce.length) '0'

/-- **What `processExtranonce` stores** when `stoull` reads a number. -/
theorem processExtranonce_run {enonce : List Char} {c : Client} {s : Session} {v : BitVec 64} (hs : c.session = some s)
    (hv : stoull16 (filled enonce) = some v) :
    processExtranonce enonce c = .ok () { c with
      session := some { s with extraNonceSizeBytes := BitVec.ofNat 32 enonce.length, extraNonce := v } } := by
  unfold processExtranonce
  rw [run_bind_of_ok (modifySession_run hs)]
  rw [filled] at hv
  simp only [expect, hv, ofOption_some_bind]
  exact modifySession_run
    (s := { s with extraNonceSizeBytes := BitVec.ofNat 32 enonce.length }) rfl

/-- When it throws, the size is already stored. -/
theorem processExtranonce_run_none {enonce : List Char} {c : Client} {s : Session} (hs : c.session = some s)
    (hv : stoull16 (filled enonce) = none) :
    processExtranonce enonce c = .error .stdException { c with
      session := some { s with extraNonceSizeBytes := BitVec.ofNat 32 enonce.length } } := by
  unfold processExtranonce
  rw [run_bind_of_ok (modifySession_run hs)]
  rw [filled] at hv
  simp only [expect, hv]
  rfl

/-- A call that returns had a session and read a number. -/
theorem processExtranonce_ok {enonce : List Char} {c c' : Client} (h : processExtranonce enonce c = .ok () c') :
    ∃ s v, c.session = some s ∧ stoull16 (filled enonce) = some v ∧
      c' = { c with
        session := some { s with extraNonceSizeBytes := BitVec.ofNat 32 enonce.length, extraNonce := v } } := by
  cases hs : c.session with
  | none =>
    unfold processExtranonce at h
    rw [run_bind_of_error (modifySession_run_none hs)] at h
    exact absurd h (by simp)
  | some s =>
    cases hv : stoull16 (filled enonce) with
    | none =>
      rw [processExtranonce_run_none hs hv] at h
      exact absurd h (by simp)
    | some v =>
      rw [processExtranonce_run hs hv] at h
      exact ⟨s, v, rfl, rfl, (EStateM.Result.ok.inj h).2.symm⟩

/-- Zeros after a numeral multiply its value. -/
theorem hexValue_append_zeros (cs : List Char) (n : ℕ) :
    hexValue (cs ++ List.replicate n '0') = hexValue cs * 16 ^ n := by
  rw [hexValue_append, hexValue_replicate_zero, List.length_replicate, Nat.add_zero]

theorem filled_eq {text : List Char} (hlen : text.length ≤ 16) :
    filled text = text ++ List.replicate (16 - text.length) '0' := by
  rw [filled, List.take_of_length_le hlen]

theorem length_filled {text : List Char} (hlen : text.length ≤ 16) : (filled text).length = 16 := by
  rw [filled_eq hlen, List.length_append, List.length_replicate]
  omega

theorem filled_isHex {text : List Char} (hhex : ∀ c ∈ text, isHexDigit c) (hlen : text.length ≤ 16) :
    ∀ c ∈ filled text, isHexDigit c := by
  intro c hc
  rw [filled_eq hlen] at hc
  rcases List.mem_append.1 hc with hc | hc
  · exact hhex c hc
  · rw [List.eq_of_mem_replicate hc]
    decide

/-- `stoull` reads a numeral filled up with zeros. -/
theorem stoull16_filled {text : List Char} (hhex : ∀ c ∈ text, isHexDigit c) (hlen : text.length ≤ 16) :
    stoull16 (filled text) = some (BitVec.ofNat 64 (hexValue (filled text))) := by
  have hlength := length_filled hlen
  refine stoull16_digits (filled_isHex hhex hlen) (List.ne_nil_of_length_pos ?_) hlength.le
  omega

/-- The text that `stoull` reads: the extranonce filled up with zeros. -/
theorem stoull16_extranonce (x : Extranonce) : stoull16 (filled x.digits) = some x.word := by
  have hlt := x.lt
  rw [stoull16_filled x.isHex hlt.le, filled_eq hlt.le, hexValue_append_zeros, ← x.two_pow_bits]
  rfl

/-- What `processExtranonce` stores for an extranonce. -/
theorem processExtranonce_of_extranonce (x : Extranonce) {c : Client} {s : Session}
    (hs : c.session = some s) :
    processExtranonce x.digits c = .ok () { c with
      session := some { s with
        extraNonceSizeBytes := BitVec.ofNat 32 x.digits.length
        extraNonce := x.word } } :=
  processExtranonce_run hs (stoull16_extranonce x)

/-- The extranonce is in force after `processExtranonce`, and the mode is as before. -/
theorem inForce_final (x : Extranonce) {c : Client} {s : Session} (hs : c.session = some s) :
    InForce x (final (processExtranonce x.digits) c) ∧
      (final (processExtranonce x.digits) c).conn = c.conn := by
  have hrun := processExtranonce_of_extranonce x hs
  rw [final, hrun]
  exact ⟨⟨_, rfl, c, _, _, hrun, rfl, rfl, rfl⟩, rfl⟩

theorem InForce.session {x : Extranonce} {c : Client} (h : InForce x c) :
    ∃ s, c.session = some s ∧ s.extraNonce = x.word ∧
      s.extraNonceSizeBytes = BitVec.ofNat 32 x.digits.length := by
  obtain ⟨s, hs, c₀, c₁, s₁, hrun, hs₁, hword, hsize⟩ := h
  obtain ⟨s₀, v, -, hv, rfl⟩ := processExtranonce_ok hrun
  obtain rfl := Option.some.inj (hv.symm.trans (stoull16_extranonce x))
  obtain rfl := Option.some.inj hs₁
  exact ⟨s, hs, hword, hsize⟩

/-- A package of the modes 2 and 3 takes the extranonce of the session over. -/
theorem describe_extranonce {rt : Runtime} {c : Client} {m : Json} {w : WorkPackage} {s : Session}
    (hs : c.session = some s)
    (hmode : c.conn.stratumMode = ETHEREUMSTRATUM ∨ c.conn.stratumMode = ETHEREUMSTRATUM2)
    (h : describe rt c m = some w) :
    w.startNonce = s.extraNonce ∧ w.exSizeBytes = s.extraNonceSizeBytes.setWidth 16 := by
  simp only [describe, hs, Option.ite_none_right_eq_some] at h
  obtain ⟨-, h⟩ := h
  rcases hmode with hmode | hmode
  · rw [hmode, if_pos (by decide)] at h
    simp only [jobPackage, Option.bind_eq_bind, Option.bind_eq_some_iff,
      Option.ite_none_right_eq_some, if_true] at h
    obtain ⟨-, ⟨jPrm, prmIdx⟩, -, -, job, -, h⟩ := h
    simp only [niceHashPackage, Option.bind_eq_bind, Option.bind_eq_some_iff, Option.pure_def,
      Option.ite_none_right_eq_some, Option.some.injEq] at h
    obtain ⟨_, -, _, -, -, _, -, _, -, _, -, rfl⟩ := h
    exact ⟨rfl, rfl⟩
  · rw [hmode, if_neg (by decide)] at h
    obtain ⟨jPrm, -, h⟩ := Option.bind_eq_some_iff.1 h
    simp only [jobPackage2, Option.bind_eq_bind, Option.bind_eq_some_iff, Option.pure_def,
      Option.some.injEq] at h
    obtain ⟨_, -, _, -, _, -, _, -, _, -, rfl⟩ := h
    exact ⟨rfl, rfl⟩

/-- **A job received under an extranonce carries it.** -/
theorem InForce.describe {rt : Runtime} {x : Extranonce} {c : Client} {m : Json} {w : WorkPackage}
    (h : InForce x c)
    (hmode : c.conn.stratumMode = ETHEREUMSTRATUM ∨ c.conn.stratumMode = ETHEREUMSTRATUM2)
    (hw : describe rt c m = some w) : HasExtranonce x w := by
  obtain ⟨s, hs, hword, hsize⟩ := h.session
  obtain ⟨hstart, hex⟩ := describe_extranonce hs hmode hw
  refine ⟨hstart.trans hword, hex.trans ?_⟩
  have hlt := x.lt
  rw [hsize]
  apply BitVec.eq_of_toNat_eq
  simp only [BitVec.toNat_setWidth, BitVec.toNat_ofNat]
  omega

end Stratum
end EtcMiner
