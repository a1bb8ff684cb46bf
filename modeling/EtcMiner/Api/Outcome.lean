/-
# What a request does

`checkedMethod` is the method of a request that passes the checks of `processRequest`, and
`acceptsPassword` says whether an `api_authorize` request carries a password that is taken for
the right one.  By these, a request that returns has one of five outcomes
(`processRequest_outcome`): it is invalid, it authorizes the session or is rejected, it is
refused to a session that is not authorized, or its method is called.

A method answers with a result or with an error and not with both, and changes the miner only
if the API is not read-only (`callMethod_answers`).
-/

import EtcMiner.Api.ProcessRequest

namespace EtcMiner
namespace Api

open Common Eth Ethash Lib Pool Stratum

variable {keccak256 : Hash 8 → Hash 8} {γ τ ε : Type} {t t' : Turn keccak256 γ} {jRequest : Json}
  {members : List (List Char × Json)}

/-- The turn with an error in the response. -/
def Turn.withError (t : Turn keccak256 γ) (e : Json) : Turn keccak256 γ :=
  { t with response := { t.response with error := some e } }

section Values

variable {α : Type} {isType : Json → Bool} {convert : Json → α} {membername : String} {refValue : α}

/-- The value that `getRequestValue` finds. -/
def requestValue (isType : Json → Bool) (convert : Json → α) (membername : String) (jRequest : Json) : Option α :=
  match jRequest.members?.bind (Json.find membername) with
  | none => none
  | some v => if isType v = true ∧ v.empty = false then some (convert v) else none

theorem ends_ofObject {o : Option α} {a : α} (h : o = some a) {Q : α → Turn keccak256 γ → Prop}
    {E : Fail → Turn keccak256 γ → Prop} : Ends (ofObject o) t Q E ↔ Q a t := by
  rw [h]
  exact Iff.rfl

/-- `getRequestValue` finds the value, or leaves an error in the response. -/
theorem ends_getRequestValue (hobj : jRequest.members? = some members)
    {Q : Option α → Turn keccak256 γ → Prop} {E : Fail → Turn keccak256 γ → Prop}
    (hsome : ∀ a, requestValue isType convert membername jRequest = some a → Q (some a) t)
    (hnone : requestValue isType convert membername jRequest = none → ∀ e, Q none (t.withError e)) :
    Ends (getRequestValue isType convert membername refValue jRequest false) t Q E := by
  have hmember : jRequest.isMember membername = some (Json.find membername members).isSome := by
    rw [Json.isMember, hobj]
    rfl
  unfold getRequestValue
  rw [ends_bind, ends_ofObject hmember]
  unfold requestValue at hsome hnone
  rw [hobj, Option.bind_some] at hsome hnone
  cases hfind : Json.find membername members with
  | none =>
    rw [hfind] at hnone
    exact hnone rfl _
  | some v =>
    have hget : jRequest.member membername = some v := by
      rw [Json.member, Json.get, hobj, Option.map_some, hfind]
      rfl
    rw [hfind] at hsome hnone
    dsimp only at hsome hnone
    rw [if_neg (by simp), ends_bind, ends_ofObject hget]
    by_cases htype : isType v = true
    · rw [if_neg (not_not.2 htype)]
      by_cases hempty : v.empty = true
      · rw [if_pos hempty]
        exact hnone (if_neg fun h => by simp [h.2] at hempty) _
      · rw [if_neg hempty]
        exact hsome _ (if_pos ⟨htype, eq_false_of_ne_true hempty⟩)
    · rw [if_pos htype]
      exact hnone (if_neg fun h => htype h.1) _

/-- A member that is an object has members. -/
theorem members_of_requestValue {v : Json}
    (h : requestValue Json.isObject (fun v => v) membername jRequest = some v) :
    ∃ members, v.members? = some members := by
  unfold requestValue at h
  split at h
  · cases h
  · next w _ =>
    split_ifs at h with hw
    obtain rfl : w = v := Option.some.inj h
    cases w with
    | obj members => exact ⟨members, rfl⟩
    | _ => exact nomatch hw.1

end Values

section Check

/-- `getRequestValue` for a string. -/
def requestString (membername : String) (jRequest : Json) : Option (List Char) :=
  requestValue Json.isString stringOf membername jRequest

/-- The `id` of a request. -/
def idOf (jRequest : Json) : Json := (jRequest.member "id").getD .null

/-- The `id` of a response: that of the request if it is an unsigned number or a string. -/
def responseId (jRequest : Json) : Json :=
  if (idOf jRequest).isUInt then .int ((idOf jRequest).asUInt.getD 0).toNat
  else if (idOf jRequest).isString then idOf jRequest
  else .null

/-- The method of a request that passes the checks. -/
def checkedMethod (jRequest : Json) : Option (List Char) :=
  if (idOf jRequest).isUInt ∨ (idOf jRequest).isString then
    if requestString "jsonrpc" jRequest = some "2.0".toList then requestString "method" jRequest else none
  else none

/-- What is left alone before a method is called. -/
structure Untouched (t t' : Turn keccak256 γ) : Prop where
  authenticated : t'.authenticated = t.authenticated
  station : t'.station = t.station
  jsonrpc : t'.response.jsonrpc = t.response.jsonrpc
  result : t'.response.result = t.response.result

theorem Untouched.refl (t : Turn keccak256 γ) : Untouched t t := ⟨rfl, rfl, rfl, rfl⟩

theorem Untouched.withError (h : Untouched t t') (e : Json) : Untouched t (t'.withError e) :=
  ⟨h.authenticated, h.station, h.jsonrpc, h.result⟩

theorem empty_of_isUInt {v : Json} (h : v.isUInt = true) : v.empty = false := by
  cases v <;> first | rfl | cases h

theorem empty_of_isString {v : Json} (h : v.isString = true) : v.empty = false := by
  cases v <;> first | rfl | cases h

/-- The `id` is taken over, or there is an error. -/
theorem ends_parseRequestId (hobj : jRequest.members? = some members)
    {E : Fail → Turn keccak256 γ → Prop} :
    Ends (parseRequestId jRequest) t (fun ok t' => Untouched t t' ∧ t'.response.id = some (responseId jRequest) ∧
      (ok = true ↔ (idOf jRequest).isUInt = true ∨ (idOf jRequest).isString = true) ∧
      (ok = true → t'.response.error = t.response.error) ∧ (ok = false → t'.response.error.isSome = true)) E := by
  have hmember : jRequest.isMember "id" = some (Json.find "id" members).isSome := by
    rw [Json.isMember, hobj]
    rfl
  have hget : jRequest.member "id" = some ((Json.find "id" members).getD .null) := by
    rw [Json.member, Json.get, hobj]
    rfl
  have hid : idOf jRequest = (Json.find "id" members).getD .null := by
    rw [idOf, hget]
    rfl
  unfold parseRequestId responseId
  rw [ends_bind, ends_ofObject hmember, ends_bind, ends_ofObject hget, ← hid]
  by_cases hempty : (idOf jRequest).empty = true
  · have huint : ¬ (idOf jRequest).isUInt = true := fun h => by simp [empty_of_isUInt h] at hempty
    have hstring : ¬ (idOf jRequest).isString = true := fun h => by simp [empty_of_isString h] at hempty
    rw [if_pos (.inr hempty), if_neg huint, if_neg hstring]
    exact ⟨⟨rfl, rfl, rfl, rfl⟩, rfl, by simp [huint, hstring], nofun, fun _ => rfl⟩
  · have hsome : (Json.find "id" members).isSome = true := by
      cases hfind : Json.find "id" members with
      | none =>
        rw [hid, hfind] at hempty
        exact absurd rfl hempty
      | some v => rfl
    rw [if_neg (by simp [hsome, hempty])]
    by_cases huint : (idOf jRequest).isUInt = true
    · rw [if_pos huint, if_pos huint]
      exact ⟨⟨rfl, rfl, rfl, rfl⟩, rfl, by simp [huint], fun _ => rfl, nofun⟩
    · rw [if_neg huint, if_neg huint]
      by_cases hstring : (idOf jRequest).isString = true
      · rw [if_pos hstring, if_pos hstring]
        exact ⟨⟨rfl, rfl, rfl, rfl⟩, rfl, by simp [hstring], fun _ => rfl, nofun⟩
      · rw [if_neg hstring, if_neg hstring]
        exact ⟨⟨rfl, rfl, rfl, rfl⟩, rfl, by simp [huint, hstring], nofun, fun _ => rfl⟩

/-- A request that fails a check has an error, one that passes has none. -/
theorem ends_checkRequest (hobj : jRequest.members? = some members) (herror : t.response.error = none)
    {E : Fail → Turn keccak256 γ → Prop} :
    Ends (checkRequest jRequest) t (fun method t' => method = checkedMethod jRequest ∧ Untouched t t' ∧
      t'.response.id = some (responseId jRequest) ∧ t'.response.error.isSome = method.isNone) E := by
  unfold checkRequest checkedMethod
  rw [ends_bind]
  refine (ends_parseRequestId (E := E) hobj).imp (fun ok t' ⟨htouch, hid, hok, hpass, hfail⟩ => ?_) fun _ _ h => h
  cases ok with
  | false =>
    rw [if_pos (by simp), if_neg (hok.not.1 Bool.false_ne_true), ends_pure]
    exact ⟨rfl, htouch, hid, hfail rfl⟩
  | true =>
    rw [if_neg (by simp), if_pos (hok.1 rfl), ends_bind]
    have hnone : t'.response.error = none := (hpass rfl).trans herror
    have hinvalid (t'' : Turn keccak256 γ) (htouch : Untouched t t'')
        (hid : t''.response.id = some (responseId jRequest)) :
        Ends (do
          if (none : Option (List Char)) = none then setError (-32600) "Invalid Request".toList
          return (none : Option (List Char))) t'' (fun method t' => method = none ∧ Untouched t t' ∧
            t'.response.id = some (responseId jRequest) ∧ t'.response.error.isSome = method.isNone) E :=
      ⟨rfl, htouch.withError _, hid, rfl⟩
    unfold getRequestString
    refine ends_getRequestValue hobj (fun jsonrpc hjsonrpc => ?_) fun hjsonrpc e => ?_
    · have hstring : requestString "jsonrpc" jRequest = some jsonrpc := hjsonrpc
      rw [hstring]
      by_cases hversion : some jsonrpc = some "2.0".toList
      · rw [if_pos hversion, if_pos hversion, ends_bind]
        refine ends_getRequestValue hobj (fun method hmethod => ?_) fun hmethod e => ?_
        · have hmethod : requestString "method" jRequest = some method := hmethod
          rw [hmethod]
          exact ⟨rfl, htouch, hid, by rw [hnone]; rfl⟩
        · have hmethod : requestString "method" jRequest = none := hmethod
          rw [hmethod]
          exact hinvalid _ (htouch.withError e) hid
      · rw [if_neg hversion, if_neg hversion]
        exact hinvalid _ htouch hid
    · have hstring : requestString "jsonrpc" jRequest = none := hjsonrpc
      rw [hstring]
      exact hinvalid _ (htouch.withError e) hid

end Check

section Methods

/-- What a method that returns has done to the session and to the response: it has a result or
an error. -/
structure Filled (t t' : Turn keccak256 γ) : Prop where
  authenticated : t'.authenticated = t.authenticated
  jsonrpc : t'.response.jsonrpc = t.response.jsonrpc
  id : t'.response.id = t.response.id
  exclusive : t'.response.result.isSome = !t'.response.error.isSome

theorem filled_withError (hresult : t.response.result = none) (e : Json) : Filled t (t.withError e) :=
  ⟨rfl, rfl, rfl, congrArg Option.isSome hresult⟩

theorem filled_setResult (herror : t.response.error = none) {v : Json} {s : Station keccak256 γ} :
    Filled t { t with station := s, response := { t.response with result := some v } } :=
  ⟨rfl, rfl, rfl, congrArg (fun e : Option Json => !e.isSome) herror.symm⟩

/-- `x` fills an empty response. -/
def Fills (x : TurnM keccak256 γ Unit) : Prop :=
  ∀ t, t.response.result = none → t.response.error = none →
    Ends x t (fun _ t' => Filled t t') fun _ t' => t'.authenticated = t.authenticated

/-- A method that returns has filled the response, and changed nothing if the API is
read-only. -/
structure Answered (conf : ApiSettings) (t t' : Turn keccak256 γ) : Prop extends Filled t t' where
  station : conf.readonly = true → t'.station = t.station

/-- What is left alone by a method that throws. -/
structure Spared (conf : ApiSettings) (t t' : Turn keccak256 γ) : Prop where
  authenticated : t'.authenticated = t.authenticated
  station : conf.readonly = true → t'.station = t.station

/-- `x` answers a request. -/
def Answers (conf : ApiSettings) (x : TurnM keccak256 γ Unit) : Prop :=
  ∀ t, t.response.result = none → t.response.error = none →
    Ends x t (fun _ t' => Answered conf t t') fun _ t' => Spared conf t t'

variable {rt : ApiRuntime} {pc : PoolClient γ τ ε} {conf : ApiSettings} {env : Env τ}

theorem tryPool_fills (x : ManagerM keccak256 γ Unit) : Fills (tryPool x) := by
  intro t hresult herror
  unfold tryPool
  rw [ends_bind]
  unfold Ends onPool
  cases x t.station.pool with
  | ok u pool => exact filled_setResult herror
  | error e pool =>
    cases e with
    | error what => exact ⟨rfl, rfl, rfl, congrArg Option.isSome hresult⟩
    | crash => rfl

theorem setError_fills (code : ℤ) (message : List Char) : Fills (setError code message : TurnM keccak256 γ Unit) :=
  fun _ hresult _ => filled_withError hresult _

/-- A value is read first; without it the error stays, or another one takes its place. -/
theorem fills_getRequestValue {α : Type} {isType : Json → Bool} {convert : Json → α} {membername : String}
    {refValue : α} {k : Option α → TurnM keccak256 γ Unit} (hobj : jRequest.members? = some members)
    (hsome : ∀ a, requestValue isType convert membername jRequest = some a → Fills (k (some a)))
    (hnone : k none = pure () ∨ ∃ code message, k none = setError code message) :
    Fills (getRequestValue isType convert membername refValue jRequest false >>= k) := by
  intro t hresult herror
  rw [ends_bind]
  refine ends_getRequestValue hobj (fun a ha => hsome a ha t hresult herror) fun _ e => ?_
  obtain hpure | ⟨code, message, hset⟩ := hnone
  · rw [hpure, ends_pure]
    exact filled_withError hresult e
  · rw [hset]
    exact ⟨rfl, rfl, rfl, congrArg Option.isSome hresult⟩

/-- The methods with parameters read these first. -/
theorem fills_params {k : Option Json → TurnM keccak256 γ Unit} (hobj : jRequest.members? = some members)
    (hsome : ∀ params members, params.members? = some members → Fills (k (some params))) (hnone : k none = pure ()) :
    Fills (getRequestObject "params" jRequest >>= k) := by
  refine fills_getRequestValue hobj (fun params hparams => ?_) (.inl hnone)
  obtain ⟨members, hmembers⟩ := members_of_requestValue hparams
  exact hsome params members hmembers

/-- A method that looks whether a member is there. -/
theorem fills_isMember {params : Json} {name : String} {k : Bool → TurnM keccak256 γ Unit}
    (hmembers : params.members? = some members) (hk : ∀ b, Fills (k b)) :
    Fills (ofObject (params.isMember name) >>= k) := by
  intro t hresult herror
  rw [ends_bind, ends_ofObject (by rw [Json.isMember, hmembers]; rfl)]
  exact hk _ t hresult herror

theorem minerRestart_fills : Fills (minerRestart : TurnM keccak256 γ Unit) :=
  fun _ _ herror => filled_setResult herror

theorem minerReboot_fills : Fills (minerReboot env : TurnM keccak256 γ Unit) :=
  fun _ _ herror => filled_setResult herror

theorem minerAddconnection_fills (hobj : jRequest.members? = some members) :
    Fills (minerAddconnection env jRequest : TurnM keccak256 γ Unit) := by
  refine fills_params hobj (fun params members hmembers => ?_) rfl
  refine fills_getRequestValue hmembers (fun sUri _ => ?_) (.inl rfl)
  dsimp only
  split
  · exact tryPool_fills _
  · exact setError_fills _ _

theorem minerSetactiveconnection_fills (hobj : jRequest.members? = some members) :
    Fills (minerSetactiveconnection pc env jRequest : TurnM keccak256 γ Unit) := by
  refine fills_params hobj (fun params members hmembers => ?_) rfl
  refine fills_isMember hmembers fun hasIndex => ?_
  split
  · exact fills_getRequestValue hmembers (fun _ _ => tryPool_fills _) (.inr ⟨_, _, rfl⟩)
  · exact fills_getRequestValue hmembers (fun _ _ => tryPool_fills _) (.inr ⟨_, _, rfl⟩)

theorem minerRemoveconnection_fills (hobj : jRequest.members? = some members) :
    Fills (minerRemoveconnection jRequest : TurnM keccak256 γ Unit) := by
  refine fills_params hobj (fun params members hmembers => ?_) rfl
  exact fills_getRequestValue hmembers (fun _ _ => tryPool_fills _) (.inl rfl)

theorem minerPausegpu_fills (hobj : jRequest.members? = some members) :
    Fills (minerPausegpu jRequest : TurnM keccak256 γ Unit) := by
  refine fills_params hobj (fun params members hmembers => ?_) rfl
  refine fills_getRequestValue hmembers (fun index _ => ?_) (.inl rfl)
  refine fills_getRequestValue hmembers (fun pause _ => ?_) (.inl rfl)
  intro t hresult herror
  dsimp only
  rw [ends_bind, ends_get]
  split_ifs
  · exact filled_setResult herror
  · exact filled_withError hresult _

theorem minerSetverbosity_fills (hobj : jRequest.members? = some members) :
    Fills (minerSetverbosity rt jRequest : TurnM keccak256 γ Unit) := by
  refine fills_params hobj (fun params members hmembers => ?_) rfl
  refine fills_getRequestValue hmembers (fun verbosity _ => ?_) (.inl rfl)
  intro t hresult herror
  dsimp only
  split_ifs
  · exact filled_withError hresult _
  · exact filled_setResult herror

theorem minerSetnonce_fills (hobj : jRequest.members? = some members) :
    Fills (minerSetnonce jRequest : TurnM keccak256 γ Unit) := by
  refine fills_params hobj (fun params members hmembers => ?_) rfl
  refine fills_isMember hmembers fun hasNonce => ?_
  split
  · refine fills_getRequestValue hmembers (fun text _ => ?_) (.inr ⟨_, _, rfl⟩)
    dsimp only
    cases onNonce text with
    | none => exact setError_fills _ _
    | some nonce => exact fun _ _ herror => filled_setResult herror
  · exact fun _ _ herror => filled_setResult herror

theorem writing_answers {x : TurnM keccak256 γ Unit} (hx : Fills x) : Answers conf (writing conf x) := by
  intro t hresult herror
  unfold writing checkApiWriteAccess
  cases hreadonly : conf.readonly with
  | true => exact ⟨filled_withError hresult _, fun _ => rfl⟩
  | false =>
    refine (hx t hresult herror).imp (fun _ t' h => ⟨h, fun hro => ?_⟩) fun _ t' h => ⟨h, fun hro => ?_⟩
    · rw [hreadonly] at hro
      cases hro
    · rw [hreadonly] at hro
      cases hro

theorem showing_answers (f : Station keccak256 γ → Except Fail Json) : Answers conf (showing f) := by
  intro t hresult herror
  unfold showing
  rw [ends_bind, ends_get, ends_bind]
  cases f t.station with
  | ok v => exact ⟨filled_setResult herror, fun _ => rfl⟩
  | error e => exact ⟨rfl, fun _ => rfl⟩

/-- **A method answers**: with a result or an error, and without a change of the miner if the API
is read-only. -/
theorem callMethod_answers (hobj : jRequest.members? = some members) (method : List Char) :
    Answers conf (callMethod rt pc conf env jRequest method : TurnM keccak256 γ Unit) := by
  have hmethods : ∀ m ∈ (methods rt pc conf env jRequest : List (String × TurnM keccak256 γ Unit)), Answers conf m.2 := by
    simp only [methods, List.forall_mem_cons]
    refine ⟨showing_answers _, showing_answers _, ?_, writing_answers minerRestart_fills,
      writing_answers minerReboot_fills, showing_answers _, writing_answers (minerAddconnection_fills hobj),
      writing_answers (minerSetactiveconnection_fills hobj), writing_answers (minerRemoveconnection_fills hobj),
      writing_answers (minerPausegpu_fills hobj), writing_answers (minerSetverbosity_fills hobj),
      writing_answers (minerSetnonce_fills hobj), showing_answers _, nofun⟩
    exact fun _ _ herror => ⟨filled_setResult herror, fun _ => rfl⟩
  unfold callMethod
  split
  · next m hfind => exact hmethods m (List.mem_of_find?_eq_some hfind)
  · exact fun _ hresult _ => ⟨filled_withError hresult _, fun _ => rfl⟩

end Methods

section Outcome

variable {rt : ApiRuntime} {pc : PoolClient γ τ ε} {conf : ApiSettings} {env : Env τ}

/-- The name of the method that authorizes a session. -/
def authorizeMethod : List Char := "api_authorize".toList

/-- The password that an `api_authorize` request carries. -/
def pswOf (jRequest : Json) : Option (List Char) :=
  (requestValue Json.isObject (fun v => v) "params" jRequest).bind (requestString "psw")

/-- It is taken for the right one. -/
def acceptsPassword (conf : ApiSettings) (jRequest : Json) : Bool :=
  match pswOf jRequest with
  | none => false
  | some psw => mismatch psw conf.password = 0

/-- The request is turned down with an error. -/
structure Refused (t t' : Turn keccak256 γ) : Prop where
  authenticated : t'.authenticated = t.authenticated
  station : t'.station = t.station
  result : t'.response.result = none
  error : t'.response.error.isSome = true

/-- The session is authorized, or not any more. -/
structure Authorization (accepted : Bool) (t t' : Turn keccak256 γ) : Prop where
  authenticated : t'.authenticated = accepted
  station : t'.station = t.station
  result : t'.response.result = none
  error : t'.response.error.isSome = !accepted

/-- What a request that returns has done. -/
inductive Outcome (conf : ApiSettings) (jRequest : Json) (t t' : Turn keccak256 γ) : Prop where
  | invalid (hmethod : checkedMethod jRequest = none) (h : Refused t t')
  | authorization (hmethod : checkedMethod jRequest = some authorizeMethod)
      (h : Authorization (acceptsPassword conf jRequest) t t')
  | locked {method : List Char} (hmethod : checkedMethod jRequest = some method) (hne : method ≠ authorizeMethod)
      (hauth : t.authenticated = false) (h : Refused t t')
  | answered {method : List Char} (hmethod : checkedMethod jRequest = some method) (hne : method ≠ authorizeMethod)
      (hauth : t.authenticated = true) (hsame : t'.authenticated = true)
      (hstation : conf.readonly = true → t'.station = t.station)
      (hexclusive : t'.response.result.isSome = !t'.response.error.isSome)

theorem ends_apiAuthorize (hobj : jRequest.members? = some members) (hresult : t.response.result = none)
    (herror : t.response.error = none) {E : Fail → Turn keccak256 γ → Prop} :
    Ends (apiAuthorize conf jRequest) t (fun _ t' => Authorization (acceptsPassword conf jRequest) t t' ∧
      t'.response.jsonrpc = t.response.jsonrpc ∧ t'.response.id = t.response.id) E := by
  unfold apiAuthorize acceptsPassword pswOf
  rw [ends_bind, ends_modify, ends_bind]
  unfold getRequestObject
  refine ends_getRequestValue hobj (fun params hparams => ?_) fun hparams e => ?_
  · obtain ⟨members, hmembers⟩ := members_of_requestValue hparams
    rw [hparams, Option.bind_some]
    dsimp only
    rw [ends_bind]
    unfold getRequestString
    refine ends_getRequestValue hmembers (fun psw hpsw => ?_) fun hpsw e => ?_
    · have hpsw : requestString "psw" params = some psw := hpsw
      rw [hpsw]
      dsimp only
      by_cases hmismatch : mismatch psw conf.password = 0
      · rw [if_pos hmismatch, decide_eq_true hmismatch]
        exact ⟨⟨rfl, rfl, hresult, by rw [herror]; rfl⟩, rfl, rfl⟩
      · rw [if_neg hmismatch, decide_eq_false hmismatch]
        exact ⟨⟨rfl, rfl, hresult, rfl⟩, rfl, rfl⟩
    · have hpsw : requestString "psw" params = none := hpsw
      rw [hpsw]
      exact ⟨⟨rfl, rfl, hresult, rfl⟩, rfl, rfl⟩
  · rw [hparams]
    exact ⟨⟨rfl, rfl, hresult, rfl⟩, rfl, rfl⟩

/-- **What a request does**, if it is an object.  An exception comes from a method. -/
theorem processRequest_outcome (hobj : jRequest.members? = some members) (authenticated : Bool)
    (station : Station keccak256 γ) :
    Ends (processRequest rt pc conf env jRequest) ⟨authenticated, station, {}⟩
      (fun _ t' => t'.response.jsonrpc = some (.text "2.0") ∧ t'.response.id = some (responseId jRequest) ∧
        Outcome conf jRequest ⟨authenticated, station, {}⟩ t')
      (fun _ t' => Spared conf ⟨authenticated, station, {}⟩ t' ∧ authenticated = true ∧
        checkedMethod jRequest ≠ some authorizeMethod) := by
  unfold processRequest
  rw [ends_bind, ends_modify, ends_bind]
  refine (ends_checkRequest (t := ⟨authenticated, station, { jsonrpc := some (.text "2.0") }⟩) hobj rfl).imp ?_
    fun _ _ h => h
  rintro method t' ⟨hmethod, htouch, hid, herror⟩
  cases method with
  | none =>
    rw [ends_pure]
    exact ⟨htouch.jsonrpc, hid, .invalid hmethod.symm ⟨htouch.authenticated, htouch.station, htouch.result, herror⟩⟩
  | some method =>
    have herror : t'.response.error = none := Option.isNone_iff_eq_none.1 (by rw [← Option.not_isSome, herror]; rfl)
    have hresult : t'.response.result = none := htouch.result
    dsimp only
    by_cases hauthorize : method = "api_authorize".toList
    · rw [if_pos hauthorize]
      refine (ends_apiAuthorize hobj hresult herror).imp (fun _ t'' h => ?_) fun _ _ h => h
      obtain ⟨h, hjsonrpc, hid'⟩ := h
      refine ⟨hjsonrpc.trans htouch.jsonrpc, hid'.trans hid, .authorization (hmethod.symm.trans (congrArg some hauthorize)) ?_⟩
      exact { h with station := h.station.trans htouch.station }
    · rw [if_neg hauthorize, ends_bind, ends_get, htouch.authenticated]
      cases authenticated with
      | false =>
        rw [if_pos (by simp)]
        exact ⟨htouch.jsonrpc, hid, .locked hmethod.symm hauthorize rfl
          ⟨htouch.authenticated, htouch.station, hresult, rfl⟩⟩
      | true =>
        rw [if_neg (by simp)]
        refine (callMethod_answers hobj method t' hresult herror).imp (fun _ t'' h => ?_) fun _ t'' h => ?_
        · exact ⟨h.jsonrpc.trans htouch.jsonrpc, h.id.trans hid, .answered hmethod.symm hauthorize rfl
            (h.authenticated.trans htouch.authenticated) (fun hro => (h.station hro).trans htouch.station) h.exclusive⟩
        · refine ⟨⟨h.authenticated.trans htouch.authenticated, fun hro => (h.station hro).trans htouch.station⟩, rfl, ?_⟩
          rw [← hmethod]
          exact fun h => hauthorize (Option.some.inj h)

/-- What is no object makes it throw at once. -/
theorem processRequest_notObject (hobj : jRequest.members? = none) (authenticated : Bool)
    (station : Station keccak256 γ) :
    processRequest rt pc conf env jRequest ⟨authenticated, station, {}⟩ =
      .error (.thrown .notObject) ⟨authenticated, station, { jsonrpc := some (.text "2.0") }⟩ := by
  have hmember : jRequest.isMember "id" = none := by
    rw [Json.isMember, hobj]
    rfl
  unfold processRequest
  rw [run_modify_bind]
  refine run_bind_of_error ?_ _
  unfold checkRequest
  refine run_bind_of_error ?_ _
  unfold parseRequestId
  refine run_bind_of_error ?_ _
  rw [hmember]
  rfl

end Outcome

end Api
end EtcMiner
