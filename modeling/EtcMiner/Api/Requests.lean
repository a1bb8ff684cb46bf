/-
# What the requests of a session do together

Three results about `processRequest` (`libapi/ApiServer.cpp`), over every sequence of requests
and whatever the outside supplies while they are served.

A read-only API leaves the miner as it is (`readonly_keeps_station`).

Every request that returns is answered by a JSON-RPC 2.0 response, but for an `api_authorize`
that is accepted: its response has neither a result nor an error (`isResponse_iff`).

A session is authorized by the last `api_authorize` (`authenticated_run`).  It forgets that no
password is needed when that request is malformed, and compares passwords with zero bytes
appended (`authenticated_iff`).
-/

import EtcMiner.Api.Outcome
import EtcMiner.Lib.Run
import EtcMiner.Pool.GetworkStatus
import Mathlib.Data.Nat.Bitwise

namespace EtcMiner
namespace Api

open Common Eth Ethash Lib Pool Stratum

variable {keccak256 : Hash 8 → Hash 8} {γ τ ε : Type} {t : Turn keccak256 γ}
  {rt : ApiRuntime} {pc : PoolClient γ τ ε} {conf : ApiSettings}

/-- A request is served, with an empty response to begin with. -/
def serve (rt : ApiRuntime) (pc : PoolClient γ τ ε) (conf : ApiSettings) (t : Turn keccak256 γ)
    (request : Env τ × Json) : Turn keccak256 γ :=
  final (processRequest rt pc conf request.1 request.2) ⟨t.authenticated, t.station, {}⟩

/-- What holds after a request, however it ends. -/
theorem serve_of_outcome {R : Turn keccak256 γ → Prop} {request : Env τ × Json}
    (hthrown : ∀ t', Spared conf t t' → checkedMethod request.2 ≠ some authorizeMethod → R t')
    (hreturn : ∀ t', Outcome conf request.2 ⟨t.authenticated, t.station, {}⟩ t' → R t') :
    R (serve rt pc conf t request) := by
  obtain ⟨env, jRequest⟩ := request
  cases hobj : jRequest.members? with
  | none =>
    have hmethod : checkedMethod jRequest = none := by
      have hid : idOf jRequest = .null := by
        rw [idOf, Json.member, Json.get, hobj]
        rfl
      rw [checkedMethod, hid]
      rfl
    unfold serve final
    rw [processRequest_notObject hobj]
    exact hthrown _ ⟨rfl, fun _ => rfl⟩ (by simp [hmethod])
  | some members =>
    refine ends_iff_final.1 ((processRequest_outcome hobj t.authenticated t.station).imp ?_ ?_)
    · exact fun _ t' h => hreturn t' h.2.2
    · exact fun _ t' h => hthrown t' ⟨h.1.authenticated, h.1.station⟩ h.2.2

/-- Every text is a request for the method it names, and every response is shown as `ok`. -/
def echoApi : ApiRuntime where
  projectNameWithVersion := "etcminer".toList
  hostName := none
  logNext := 4
  parse line := .ok (.obj [("id".toList, .int 1), ("jsonrpc".toList, .text "2.0"), ("method".toList, .str line)])
  writeString _ := "ok".toList
  print
    | .int i => decimal i
    | _ => []
  valueToString _ := []
  printDouble _ := []
  printFixed _ _ := []
  toDouble q := q
  toFloat q := q
  what _ := []
  bol _ := false

/-- Nothing is added and nothing reboots. -/
def noEnv : Env Unit where
  now := 0
  t := ()
  newURI _ := none
  canReboot := false

/-- A miner without devices, with one connection that was made the active one `switches` times. -/
def minerless (switches : ℕ) : Station countingKeccak GetworkStatus where
  pool := { getworkManager {} [getworkConnection 0 "pool.example"] with
    connectionSwitches := switches
    client := some ⟨some (getworkConnection 0 "pool.example"), { conn := { stratumMode := 999 } }⟩ }
  miners := []
  telemetry := { start := 0, farm := { solutions := { tstamp := 0 } }, miners := [] }
  nonce := UserNonce.empty

/-- A request with the id 7. -/
def requestOf (method : String) (more : List (List Char × Json)) : List (List Char × Json) :=
  [("id".toList, .int 7), ("jsonrpc".toList, .text "2.0"), ("method".toList, .text method)] ++ more

section ReadOnly

theorem serve_station (hreadonly : conf.readonly = true) (request : Env τ × Json) :
    (serve rt pc conf t request).station = t.station := by
  refine serve_of_outcome (R := fun t' => t'.station = t.station) (fun t' h _ => h.station hreadonly) ?_
  intro t' h
  cases h with
  | invalid _ h => exact h.station
  | authorization _ h => exact h.station
  | locked _ _ _ h => exact h.station
  | answered _ _ _ _ hstation _ => exact hstation hreadonly

/-- **A read-only API cannot change the miner**, whatever the requests are. -/
theorem readonly_keeps_station (rt : ApiRuntime) (pc : PoolClient γ τ ε) (password : List Char)
    (t : Turn keccak256 γ) (requests : List (Env τ × Json)) :
    (run (serve rt pc ⟨true, password⟩) t requests).station = t.station :=
  @Along.run_inv _ _ _ (fun _ _ => True) _ (fun t' : Turn keccak256 γ => t'.station = t.station) rfl
    (fun _ request h _ => (serve_station rfl request).trans h) requests (along_of_forall (fun _ _ => trivial) requests)

end ReadOnly

section Response

/-- A JSON-RPC 2.0 response to a request: its `id` is that of the request if this is an unsigned
number or a string, and `null` otherwise, and it has a result or an error. -/
def IsResponse (jRequest jResponse : Json) : Prop :=
  ∃ members, jResponse = .obj members ∧ Json.find "jsonrpc" members = some (.text "2.0") ∧
    Json.find "id" members = some (responseId jRequest) ∧
    (Json.find "result" members).isSome = !(Json.find "error" members).isSome

/-- The members of a response. -/
theorem Response.find_toJson (r : Response) : ∃ members, r.toJson = .obj members ∧
    Json.find "jsonrpc" members = r.jsonrpc ∧ Json.find "id" members = r.id ∧
    Json.find "result" members = r.result ∧ Json.find "error" members = r.error := by
  obtain ⟨jsonrpc, id, result, error⟩ := r
  refine ⟨_, rfl, ?_⟩
  cases jsonrpc <;> cases id <;> cases result <;> cases error <;> simp [Json.find]

theorem IsResponse.exclusive {jRequest : Json} {r : Response} (h : IsResponse jRequest r.toJson) :
    r.result.isSome = !r.error.isSome := by
  obtain ⟨members, hmembers, -, -, hexclusive⟩ := h
  obtain ⟨members', hmembers', -, -, hresult, herror⟩ := r.find_toJson
  obtain rfl : members = members' := Json.obj.inj (hmembers.symm.trans hmembers')
  rwa [hresult, herror] at hexclusive

theorem isResponse_toJson_iff {jRequest : Json} {r : Response} (hjsonrpc : r.jsonrpc = some (.text "2.0"))
    (hid : r.id = some (responseId jRequest)) :
    IsResponse jRequest r.toJson ↔ r.result.isSome = !r.error.isSome := by
  refine ⟨IsResponse.exclusive, fun hexclusive => ?_⟩
  obtain ⟨members, hmembers, hfindJsonrpc, hfindId, hfindResult, hfindError⟩ := r.find_toJson
  refine ⟨members, hmembers, hfindJsonrpc.trans hjsonrpc, hfindId.trans hid, ?_⟩
  rwa [hfindResult, hfindError]

/-- **Every answer is a JSON-RPC 2.0 response**, but for that to an `api_authorize` that is
accepted. -/
theorem isResponse_iff (rt : ApiRuntime) (pc : PoolClient γ τ ε) (conf : ApiSettings) (env : Env τ)
    (members : List (List Char × Json)) (authenticated : Bool) (station : Station keccak256 γ)
    (t' : Turn keccak256 γ)
    (hreturn : processRequest rt pc conf env (.obj members) ⟨authenticated, station, {}⟩ = .ok () t') :
    IsResponse (.obj members) t'.response.toJson ↔
      ¬ (checkedMethod (.obj members) = some authorizeMethod ∧ acceptsPassword conf (.obj members) = true) := by
  have hends : Ends (processRequest rt pc conf env (.obj members)) ⟨authenticated, station, {}⟩ _ _ :=
    processRequest_outcome rfl authenticated station
  unfold Ends at hends
  rw [hreturn] at hends
  obtain ⟨hjsonrpc, hid, houtcome⟩ := hends
  rw [isResponse_toJson_iff hjsonrpc hid]
  cases houtcome with
  | invalid hmethod h => simp [h.result, h.error, hmethod]
  | authorization hmethod h =>
    rw [h.result, h.error, hmethod]
    cases acceptsPassword conf (.obj members) <;> simp
  | locked hmethod hne _ h => simp [h.result, h.error, hmethod, hne]
  | answered hmethod hne _ _ _ hexclusive => simp [hexclusive, hmethod, hne]

theorem isResponse_iff_ping :
    ∃ t', processRequest echoApi getworkClient ⟨false, []⟩ noEnv (.obj (requestOf "miner_ping" []))
        ⟨true, minerless 1, {}⟩ = .ok () t' ∧
      IsResponse (.obj (requestOf "miner_ping" [])) t'.response.toJson :=
  ⟨_, rfl, (isResponse_iff echoApi getworkClient ⟨false, []⟩ noEnv (requestOf "miner_ping" []) true (minerless 1) _
    rfl).2 (by decide)⟩

/-- An `api_authorize` with the right password: the response has only an `id` and a version. -/
theorem authorized_without_result :
    let jRequest := .obj (requestOf "api_authorize" [("params".toList, .obj [("psw".toList, .text "secret")])])
    let x := processRequest echoApi getworkClient ⟨false, "secret".toList⟩ noEnv jRequest
    thrown x ⟨false, minerless 1, {}⟩ = none ∧
      ¬ IsResponse jRequest (final x ⟨false, minerless 1, {}⟩).response.toJson := by
  intro jRequest x
  refine ⟨by decide +kernel, fun h => ?_⟩
  have hexclusive := h.exclusive
  revert hexclusive
  decide +kernel

end Response

section Authentication

/-- The last `api_authorize` that passes the checks. -/
def lastAuthorize (requests : List (Env τ × Json)) : Option Json :=
  ((requests.map Prod.snd).filter fun jRequest => checkedMethod jRequest = some authorizeMethod).getLast?

/-- The session follows the last `api_authorize`. -/
def authenticatedAfter (conf : ApiSettings) (authenticated : Bool) (requests : List (Env τ × Json)) : Bool :=
  match lastAuthorize requests with
  | none => authenticated
  | some jRequest => acceptsPassword conf jRequest

theorem serve_authenticated (request : Env τ × Json) :
    (serve rt pc conf t request).authenticated =
      if checkedMethod request.2 = some authorizeMethod then acceptsPassword conf request.2 else t.authenticated := by
  refine serve_of_outcome (R := fun t' => t'.authenticated = _) (fun t' h hmethod => ?_) fun t' h => ?_
  · rw [if_neg hmethod]
    exact h.authenticated
  · cases h with
    | invalid hmethod h =>
      rw [hmethod, if_neg nofun]
      exact h.authenticated
    | authorization hmethod h =>
      rw [if_pos hmethod]
      exact h.authenticated
    | locked hmethod hne _ h =>
      rw [hmethod, if_neg fun h => hne (Option.some.inj h)]
      exact h.authenticated
    | answered hmethod hne hauth hsame _ _ =>
      rw [hmethod, if_neg fun h => hne (Option.some.inj h)]
      exact hsame.trans hauth.symm

theorem lastAuthorize_append (requests : List (Env τ × Json)) (request : Env τ × Json) :
    lastAuthorize (requests ++ [request]) =
      if checkedMethod request.2 = some authorizeMethod then some request.2 else lastAuthorize requests := by
  unfold lastAuthorize
  rw [List.map_append, List.filter_append]
  by_cases h : checkedMethod request.2 = some authorizeMethod
  · simp [h]
  · simp [h]

/-- **The session after a sequence of requests.** -/
theorem authenticated_run (requests : List (Env τ × Json)) :
    (run (serve rt pc conf) t requests).authenticated = authenticatedAfter conf t.authenticated requests := by
  refine @Along.run_log _ _ (serve rt pc conf) (fun _ _ => True) _
    (fun t' done => t'.authenticated = authenticatedAfter conf t.authenticated done) [] rfl ?_ requests
    (along_of_forall (fun _ _ => trivial) requests)
  intro t' done request h _
  rw [serve_authenticated, h]
  unfold authenticatedAfter
  rw [lastAuthorize_append]
  split_ifs <;> rfl

theorem foldl_or_eq_zero {a : ℕ} (l : List ℕ) : l.foldl (· ||| ·) a = 0 ↔ a = 0 ∧ ∀ x ∈ l, x = 0 := by
  induction l generalizing a with
  | nil => simp
  | cons x l ih => simp [ih, and_assoc]

theorem zipWith_xor_eq_zero {s s' : List Char} (h : s.length = s'.length) :
    (∀ x ∈ s.zipWith (fun a b => a.toNat ^^^ b.toNat) s', x = 0) ↔ s = s' := by
  induction s generalizing s' with
  | nil => simp [List.eq_nil_of_length_eq_zero h.symm]
  | cons a s ih =>
    cases s' with
    | nil => cases h
    | cons b s' => simp [ih (Nat.succ.inj h), Char.toNat_inj]

theorem length_zeroPadded (s : List Char) : (zeroPadded s).length = maxLength := by
  rw [zeroPadded, List.length_append, List.length_take, List.length_replicate]
  omega

/-- The comparison is of the passwords with zero bytes appended, up to 500 bytes. -/
theorem mismatch_eq_zero_iff {psw password : List Char} :
    mismatch psw password = 0 ↔ zeroPadded psw = zeroPadded password := by
  unfold mismatch
  rw [foldl_or_eq_zero, zipWith_xor_eq_zero ((length_zeroPadded psw).trans (length_zeroPadded password).symm)]
  simp

theorem acceptsPassword_iff {jRequest : Json} :
    acceptsPassword conf jRequest = true ↔
      ∃ psw, pswOf jRequest = some psw ∧ zeroPadded psw = zeroPadded conf.password := by
  unfold acceptsPassword
  cases pswOf jRequest with
  | none => simp
  | some psw => simp [mismatch_eq_zero_iff]

/-- **When the authentication follows the password.**  Without a password the last
`api_authorize`, if there is one, must carry a password of zero bytes; with one, a password that
equals it up to zero bytes at the end must be equal to it. -/
theorem authenticated_iff (rt : ApiRuntime) (pc : PoolClient γ τ ε) (readonly : Bool) (p : List Char)
    (station : Station keccak256 γ) (requests : List (Env τ × Json)) :
    let t := run (serve rt pc ⟨readonly, p⟩) ⟨p.isEmpty, station, {}⟩ requests
    (t.authenticated = true ↔ p = [] ∨ ∃ jRequest, lastAuthorize requests = some jRequest ∧ pswOf jRequest = some p) ↔
      ∀ jRequest, lastAuthorize requests = some jRequest →
        (p = [] → ∃ psw, pswOf jRequest = some psw ∧ zeroPadded psw = zeroPadded []) ∧
        (p ≠ [] → ∀ psw, pswOf jRequest = some psw → zeroPadded psw = zeroPadded p → psw = p) := by
  intro t
  have hrun : t.authenticated = _ := authenticated_run requests
  rw [hrun, authenticatedAfter]
  cases lastAuthorize requests with
  | none => simp
  | some jRequest =>
    dsimp only
    rw [acceptsPassword_iff]
    by_cases hp : p = []
    · subst hp
      simp
    · simp only [hp, false_or, Option.some.injEq, exists_eq_left', forall_eq', false_imp_iff, true_and, ne_eq,
        not_false_eq_true, true_imp_iff]
      constructor
      · intro h psw hpsw hpadded
        have hp' : pswOf jRequest = some p := h.1 ⟨psw, hpsw, hpadded⟩
        exact Option.some.inj (hpsw.symm.trans hp')
      · intro h
        refine ⟨fun ⟨psw, hpsw, hpadded⟩ => ?_, fun hpsw => ⟨p, hpsw, rfl⟩⟩
        rwa [← h psw hpsw hpadded]

/-- Without a password the session is open, until an `api_authorize` without parameters. -/
theorem authorize_locks_out :
    let requests : List (Env Unit × Json) := [(noEnv, .obj (requestOf "api_authorize" []))]
    let t := run (serve echoApi getworkClient ⟨false, []⟩) ⟨true, minerless 1, {}⟩ requests
    ¬ (t.authenticated = true ↔ ([] : List Char) = [] ∨
      ∃ jRequest, lastAuthorize requests = some jRequest ∧ pswOf jRequest = some []) := by
  intro requests t h
  have hlocked : t.authenticated = false := by decide +kernel
  exact absurd (h.2 (.inl rfl)) (by simp [hlocked])

end Authentication

end Api
end EtcMiner
