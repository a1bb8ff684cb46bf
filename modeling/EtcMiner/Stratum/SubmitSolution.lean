/-
# Submitting a solution

`EthStratumClient::submitSolution` in `libpool/stratum/EthStratumClient.cpp`.  In the
modes 2 and 3 the pool has fixed the first digits of the nonce, the extranonce, and is
sent the digits after them (`shortNonce`, `submitSolution_sends`); `Rebuilds x sol` says
that the digits `x` and the text sent make up the nonce.  For an extranonce of as many
digits as the work package says this is a matter of the high bits of the nonce
(`rebuilds_iff`).
-/

import EtcMiner.Lib.Cyclic
import EtcMiner.Stratum.Client

namespace EtcMiner
namespace Stratum

open Common Eth Lib

/-- `substr(pos)`, which throws past the end. -/
def substr (s : List Char) (pos : ℕ) : Option (List Char) :=
  if pos ≤ s.length then some (s.drop pos) else none

/-- `toHex(n, HexPrefix::DontAdd)` of a `uint64_t`. -/
def toHex64 (n : BitVec 64) : List Char := toHexDigits 16 n.toNat

/-- `toHex(solution.nonce, HexPrefix::DontAdd).substr(solution.work.exSizeBytes)`. -/
def shortNonce (solution : Solution) : Option (List Char) :=
  substr (toHex64 solution.nonce) solution.work.exSizeBytes.toNat

/-- The texts of `jReq["params"]`. -/
def submitParams (conn : Conn) (s : Session) (solution : Solution) : Option (List (List Char)) :=
  let nonce := '0' :: 'x' :: toHex64 solution.nonce
  let hashes := [nonce, solution.work.header.hex, solution.mixHash.hex]
  if conn.stratumMode = STRATUM then some (conn.user :: solution.work.job :: hashes)
  else if conn.stratumMode = ETHPROXY then some hashes
  else if conn.stratumMode = ETHEREUMSTRATUM then do
    return [conn.userDotWorker, solution.work.job, ← shortNonce solution]
  else if conn.stratumMode = ETHEREUMSTRATUM2 then do
    return [solution.work.job, ← shortNonce solution, s.workerId]
  else some []

/-- `jReq`. -/
def submitRequest (conn : Conn) (s : Session) (id : BitVec 32) (solution : Solution) :
    Option Json := do
  let params ← submitParams conn s solution
  let method := if conn.stratumMode = ETHPROXY then "eth_submitWork" else "mining.submit"
  let jsonrpc :=
    if conn.stratumMode = STRATUM then [("jsonrpc".toList, Json.text "2.0")] else []
  let worker :=
    if (conn.stratumMode = STRATUM ∨ conn.stratumMode = ETHPROXY) ∧ conn.workername ≠ [] then
      [("worker".toList, Json.str conn.workername)]
    else []
  return .obj (("id".toList, .int id.toNat) :: jsonrpc ++
    [("method".toList, .text method), ("params".toList, .arr (params.map Json.str))] ++ worker)

/-- `submitSolution`. -/
def submitSolution (now : ℤ) (solution : Solution) : ClientM Unit := do
  let c ← get
  if ¬ isAuthorized c then return
  else
    let id := 40 + BitVec.ofNat 32 solution.midx
    modify fun c => { c with
      solutionSubmittedMaxId := if c.solutionSubmittedMaxId < id then id else c.solutionSubmittedMaxId }
    let jReq ← expect (submitRequest c.conn (← session) id solution)
    enqueueResponsePlea now
    send jReq

section Sends

variable {c : Client} {s : Session} {solution : Solution}

/-- In the modes 2 and 3 `shortNonce` is one of the parameters. -/
theorem shortNonce_mem_submitParams {text : List Char}
    (hmode : c.conn.stratumMode = ETHEREUMSTRATUM ∨ c.conn.stratumMode = ETHEREUMSTRATUM2)
    (htext : shortNonce solution = some text) :
    ∃ params, submitParams c.conn s solution = some params ∧ text ∈ params := by
  rcases hmode with hmode | hmode <;> rw [submitParams, hmode, htext]
  · exact ⟨[_, _, text], rfl, by simp⟩
  · exact ⟨[_, text, _], rfl, by simp⟩

/-- A request is built from the parameters. -/
theorem submitRequest_of_submitParams {params : List (List Char)}
    (hparams : submitParams c.conn s solution = some params) (id : BitVec 32) :
    ∃ jReq, submitRequest c.conn s id solution = some jReq ∧
      jReq.member "params" = some (.arr (params.map Json.str)) := by
  rw [submitRequest, hparams]
  refine ⟨_, rfl, ?_⟩
  by_cases hmode : c.conn.stratumMode = STRATUM <;> simp only [hmode, if_true, if_false] <;> rfl

/-- An authorized client sends the request. -/
theorem submitSolution_run (now : ℤ) {jReq : Json} (hs : c.session = some s)
    (hauth : s.authorized = true)
    (hreq : submitRequest c.conn s (40 + BitVec.ofNat 32 solution.midx) solution = some jReq) :
    (final (submitSolution now solution) c).effects = c.effects ++ [.send jReq] := by
  have hauthorized : isAuthorized c = true := by
    rw [isAuthorized, hs]
    exact hauth
  unfold final submitSolution
  rw [run_get_bind, if_neg (by simp [hauthorized]), run_modify_bind,
    run_bind_of_ok (session_run ?_), hreq]
  · rfl
  · exact hs

/-- **What the pool is sent in the modes 2 and 3**: an authorized client sends one request,
with `shortNonce` among its parameters. -/
theorem submitSolution_sends (now : ℤ) {text : List Char} (hs : c.session = some s)
    (hauth : s.authorized = true)
    (hmode : c.conn.stratumMode = ETHEREUMSTRATUM ∨ c.conn.stratumMode = ETHEREUMSTRATUM2)
    (htext : shortNonce solution = some text) :
    ∃ jReq params, (final (submitSolution now solution) c).effects = c.effects ++ [.send jReq] ∧
      jReq.member "params" = some (.arr params) ∧ Json.str text ∈ params := by
  obtain ⟨params, hparams, hmem⟩ := shortNonce_mem_submitParams (s := s) hmode htext
  obtain ⟨jReq, hreq, hmember⟩ := submitRequest_of_submitParams hparams _
  exact ⟨jReq, _, submitSolution_run now hs hauth hreq, hmember, List.mem_map_of_mem hmem⟩

end Sends

/-- **The pool can rebuild the nonce**: its digits are `x`, in lower case, followed by the
text sent. -/
def Rebuilds (x : List Char) (solution : Solution) : Prop :=
  ∃ text, shortNonce solution = some text ∧ toHex64 solution.nonce = x.map Char.toLower ++ text

/-- An extranonce of 1 to 15 hex digits. -/
structure Extranonce where
  digits : List Char
  isHex : ∀ c ∈ digits, isHexDigit c
  pos : 0 < digits.length
  lt : digits.length < 16

namespace Extranonce

variable (x : Extranonce)

/-- The bits the extranonce leaves. -/
def bits : ℕ := 64 - 4 * x.digits.length

/-- The extranonce as the high digits of a word. -/
def word : BitVec 64 := BitVec.ofNat 64 (hexValue x.digits * 2 ^ x.bits)

theorem two_pow_bits : 2 ^ x.bits = 16 ^ (16 - x.digits.length) := by
  have hlt := x.lt
  rw [bits, show 64 - 4 * x.digits.length = 4 * (16 - x.digits.length) by omega, pow_mul]
  norm_num

theorem toNat_word : x.word.toNat = hexValue x.digits * 2 ^ x.bits := by
  have hlt := x.lt
  have hpow : 16 ^ x.digits.length * 16 ^ (16 - x.digits.length) = 2 ^ 64 := by
    rw [← pow_add, show x.digits.length + (16 - x.digits.length) = 16 by omega]
    norm_num
  rw [word, BitVec.toNat_ofNat, Nat.mod_eq_of_lt]
  rw [two_pow_bits, ← hpow]
  exact Nat.mul_lt_mul_of_pos_right (hexValue_lt _) (by positivity)

end Extranonce

/-- **Which nonces the pool can rebuild**: those with the extranonce as their high bits. -/
theorem rebuilds_iff {x : Extranonce} {solution : Solution}
    (hsize : solution.work.exSizeBytes = BitVec.ofNat 16 x.digits.length) :
    Rebuilds x.digits solution ↔ solution.nonce ∈ arc x.word (2 ^ x.bits) := by
  have hlt := x.lt
  have hlen : solution.work.exSizeBytes.toNat = x.digits.length := by
    rw [hsize, BitVec.toNat_ofNat, Nat.mod_eq_of_lt (by omega)]
  have hnonce : solution.nonce.toNat < 16 ^ 16 := solution.nonce.isLt
  have hshort : shortNonce solution =
      some ((toHexDigits 16 solution.nonce.toNat).drop x.digits.length) := by
    rw [shortNonce, substr, hlen, toHex64, if_pos (by rw [length_toHexDigits]; omega)]
  have hword : x.word.toNat / 2 ^ x.bits = hexValue x.digits := by
    rw [x.toNat_word, Nat.mul_div_cancel _ (Nat.two_pow_pos _)]
  rw [mem_arc_iff_div_eq (by rw [Extranonce.bits]; omega) (by rw [x.toNat_word, Nat.mul_mod_left]),
    hword, x.two_pow_bits, ← toHexDigits_eq_append_iff hnonce x.isHex hlt.le, Rebuilds, hshort]
  constructor
  · rintro ⟨text, htext, hdigits⟩
    rw [← Option.some.inj htext] at hdigits
    exact hdigits
  · exact fun hdigits => ⟨_, rfl, hdigits⟩

end Stratum
end EtcMiner
