/-
# What a session learns without the password

Until it has sent the password a session is answered the same whatever the miner does: two runs
with the same events and any two miners (any pools, devices and rates, and any course of things
in between) have the same socket and the same buffers, and so the same bytes transmitted
(`secrecy`).  Before the password is accepted `processRequest` is blind to the miner
(`processRequest_alike`, with `Lib.Blind`).

**This holds as long as no page is asked for.**  The pages of the miner are served to an HTTP
request without looking at `m_is_authenticated` (`metrics_reveal`).
-/

import EtcMiner.Api.Delivery
import EtcMiner.Lib.TwoRuns

namespace EtcMiner
namespace Api

open Common Eth Ethash Lib Pool Stratum

variable {keccak256 : Hash 8 → Hash 8} {γ τ ε : Type}

section Request

/-- The miner is hidden; the session is authenticated in both runs or in neither. -/
structure SameTurn (authenticated : Bool) (t t' : Turn keccak256 γ) : Prop where
  left : t.authenticated = authenticated
  right : t'.authenticated = authenticated
  response : t.response = t'.response

/-- The miner is hidden. -/
def SameFace (t t' : Turn keccak256 γ) : Prop := ∃ authenticated, SameTurn authenticated t t'

variable {authenticated : Bool}

theorem blind_response (f : Response → Response) :
    Blind (SameTurn authenticated) (modify fun t => { t with response := f t.response } : TurnM keccak256 γ Unit) :=
  blind_modify fun _ _ h => ⟨h.left, h.right, congrArg f h.response⟩

instance setError_blind (code : ℤ) (message : List Char) :
    Blind (SameTurn authenticated) (setError code message : TurnM keccak256 γ Unit) :=
  blind_response fun r =>
    { r with error := some (.obj [("code".toList, .int code), ("message".toList, .str message)]) }

instance setId_blind (v : Json) : Blind (SameTurn authenticated) (setId v : TurnM keccak256 γ Unit) :=
  blind_response fun r => { r with id := some v }

instance ofObject_blind {α : Type} (o : Option α) :
    Blind (SameTurn authenticated) (ofObject o : TurnM keccak256 γ α) :=
  Blind.ofOption _ o

instance getRequestValue_blind {α : Type} (isType : Json → Bool) (convert : Json → α) (membername : String)
    (refValue : α) (jRequest : Json) (optional : Bool) : Blind (SameTurn authenticated)
      (getRequestValue isType convert membername refValue jRequest optional : TurnM keccak256 γ (Option α)) := by
  unfold getRequestValue
  infer_instance

instance getRequestString_blind (membername : String) (jRequest : Json) :
    Blind (SameTurn authenticated) (getRequestString membername jRequest : TurnM keccak256 γ _) :=
  getRequestValue_blind _ _ _ _ _ _

instance getRequestObject_blind (membername : String) (jRequest : Json) :
    Blind (SameTurn authenticated) (getRequestObject membername jRequest : TurnM keccak256 γ _) :=
  getRequestValue_blind _ _ _ _ _ _

instance parseRequestId_blind (jRequest : Json) :
    Blind (SameTurn authenticated) (parseRequestId jRequest : TurnM keccak256 γ Bool) := by
  unfold parseRequestId
  infer_instance

instance checkRequest_blind (jRequest : Json) :
    Blind (SameTurn authenticated) (checkRequest jRequest : TurnM keccak256 γ (Option (List Char))) := by
  unfold checkRequest
  infer_instance

variable {conf : ApiSettings} {jRequest : Json} {t t' : Turn keccak256 γ}

theorem SameTurn.face (h : SameTurn authenticated t t') : SameFace t t' := ⟨_, h⟩

theorem apiAuthorize_alike (h : SameTurn authenticated t t') :
    Alike SameFace (apiAuthorize conf jRequest t) (apiAuthorize conf jRequest t') := by
  unfold apiAuthorize
  refine Alike.bind (R := SameTurn false) ⟨rfl, rfl, rfl, h.response⟩ (fun _ t t' h => ?_) fun _ _ h => h.face
  refine ((getRequestObject_blind _ _).run t t' h).bind (fun params t t' h => ?_) fun _ _ h => h.face
  cases params with
  | none => exact ⟨rfl, h.face⟩
  | some params =>
    refine ((getRequestString_blind _ _).run t t' h).bind (fun psw t t' h => ?_) fun _ _ h => h.face
    cases psw with
    | none => exact ⟨rfl, h.face⟩
    | some psw =>
      dsimp only
      split_ifs
      · exact ⟨rfl, true, rfl, rfl, h.response⟩
      · exact ((setError_blind _ _).run t t' h).mono fun _ _ h => h.face

/-- **A request is answered blindly** before the password is accepted. -/
theorem processRequest_alike (rt : ApiRuntime) (pc : PoolClient γ τ ε) (conf : ApiSettings) (jRequest : Json)
    (env env' : Env τ) (h : SameTurn false t t') :
    Alike SameFace (processRequest rt pc conf env jRequest t) (processRequest rt pc conf env' jRequest t') := by
  unfold processRequest
  refine ((blind_response fun r => { r with jsonrpc := some (.text "2.0") }).run t t' h).bind (fun _ t t' h => ?_)
    fun _ _ h => h.face
  refine ((checkRequest_blind jRequest).run t t' h).bind (fun method t t' h => ?_) fun _ _ h => h.face
  cases method with
  | none => exact ⟨rfl, h.face⟩
  | some method =>
    dsimp only
    split_ifs
    · exact apiAuthorize_alike h
    · -- both runs ask for authorization
      rw [run_get_bind, run_get_bind, h.left, h.right]
      exact ((setError_blind _ _).run t t' h).mono fun _ _ h => h.face

end Request

section Session

variable (rt : ApiRuntime) (pc : PoolClient γ τ ε) (conf : ApiSettings)

/-- The line is an `api_authorize` with a password that is accepted. -/
def unlocks (line : List Char) : Bool :=
  match rt.parse line with
  | .error _ => false
  | .ok jMsg => checkedMethod jMsg = some authorizeMethod && acceptsPassword conf jMsg

theorem respond_of_parse {env : Env τ} {line : List Char} {jMsg : Json} (hparse : rt.parse line = .ok jMsg)
    (authenticated : Bool) (station : Station keccak256 γ) :
    (respond rt pc conf env line authenticated station).1 =
      final (processRequest rt pc conf env jMsg) ⟨authenticated, station, {}⟩ := by
  unfold respond final
  rw [hparse]
  dsimp only
  split <;> simp_all

/-- Only an `api_authorize` opens the session. -/
theorem respond_authenticated (env : Env τ) (line : List Char) (station : Station keccak256 γ) :
    (respond rt pc conf env line false station).1.authenticated = unlocks rt conf line := by
  cases hparse : rt.parse line with
  | error what => simp [respond, unlocks, hparse]
  | ok jMsg =>
    rw [respond_of_parse rt pc conf hparse, unlocks, hparse]
    have hserve : (serve rt pc conf ⟨false, station, {}⟩ (env, jMsg)).authenticated = _ := serve_authenticated (env, jMsg)
    refine hserve.trans ?_
    dsimp only
    split_ifs with hmethod <;> simp [hmethod]

/-- The answer does not depend on the miner. -/
theorem respond_alike (env env' : Env τ) (line : List Char) (station station' : Station keccak256 γ) :
    (respond rt pc conf env line false station).2 = (respond rt pc conf env' line false station').2 := by
  cases hparse : rt.parse line with
  | error what => simp [respond, hparse]
  | ok jMsg =>
    have hsame : SameTurn false (⟨false, station, {}⟩ : Turn keccak256 γ) ⟨false, station', {}⟩ := ⟨rfl, rfl, rfl⟩
    have halike := processRequest_alike rt pc conf jMsg env env' hsame
    unfold respond
    rw [hparse]
    dsimp only
    cases hrun : processRequest rt pc conf env jMsg ⟨false, station, {}⟩ with
    | ok a t =>
      cases hrun' : processRequest rt pc conf env' jMsg ⟨false, station', {}⟩ with
      | ok a' t' =>
        rw [hrun, hrun'] at halike
        obtain ⟨-, authenticated, hface⟩ := halike
        exact congrArg (fun r => some (Response.toJson r)) hface.response
      | error e' t' =>
        rw [hrun, hrun'] at halike
        exact halike.elim
    | error e t =>
      cases hrun' : processRequest rt pc conf env' jMsg ⟨false, station', {}⟩ with
      | ok a' t' =>
        rw [hrun, hrun'] at halike
        exact halike.elim
      | error e' t' =>
        rw [hrun, hrun'] at halike
        obtain ⟨rfl, -⟩ := halike
        cases e <;> rfl

variable {rt conf}

/-- Both sessions are locked. -/
structure Locked (k k' : Core keccak256 γ) : Prop where
  left : k.authenticated = false
  right : k'.authenticated = false
  crashed : k.crashed = k'.crashed

variable (w w' : World keccak256 γ τ) {k k' : Core keccak256 γ}

theorem Locked.answer (h : Locked k k') {line : List Char} (hline : unlocks rt conf (trim line) = false) :
    (k.answer rt pc conf w line).2 = (k'.answer rt pc conf w' line).2 ∧
      Locked (k.answer rt pc conf w line).1 (k'.answer rt pc conf w' line).1 := by
  unfold Core.answer
  rw [h.crashed, h.left, h.right]
  split_ifs
  · exact ⟨rfl, h⟩
  · have hanswer := respond_alike rt pc conf (w.env k.served) (w'.env k'.served) (trim line)
      (w.drift k.served k.station) (w'.drift k'.served k'.station)
    refine ⟨by simp only [hanswer], ?_, ?_, by simp only [hanswer]⟩
    · exact (respond_authenticated rt pc conf _ _ _).trans hline
    · exact (respond_authenticated rt pc conf _ _ _).trans hline

theorem Locked.answerAll (h : Locked k k') {lines : List (List Char)}
    (hlines : ∀ line ∈ lines, unlocks rt conf (trim line) = false) :
    (k.answerAll rt pc conf w lines).2 = (k'.answerAll rt pc conf w' lines).2 ∧
      Locked (k.answerAll rt pc conf w lines).1 (k'.answerAll rt pc conf w' lines).1 := by
  induction lines generalizing k k' with
  | nil => exact ⟨rfl, h⟩
  | cons line lines ih =>
    obtain ⟨hline, hlines⟩ := List.forall_mem_cons.1 hlines
    obtain ⟨hanswer, hlocked⟩ := h.answer pc w w' hline
    obtain ⟨hanswers, hlocked⟩ := ih hlocked hlines
    refine ⟨?_, hlocked⟩
    simp only [Core.answerAll, hanswer, hanswers]

/-- Both sessions are locked, and nothing else of them differs outside of the miner. -/
structure Blinded (s s' : Session keccak256 γ) : Prop where
  core : Locked s.core s'.core
  wire : s.wire = s'.wire

variable {s s' : Session keccak256 γ}

theorem Blinded.handleHttp (h : Blinded s s') {r : HttpRequest} (hr : r.isPage = false) :
    Blinded (s.handleHttp rt pc w r) (s'.handleHttp rt pc w' r) := by
  unfold Session.handleHttp
  rw [hr, h.wire]
  exact ⟨h.core, rfl⟩

theorem Blinded.handleLines (h : Blinded s s') {text : List Char}
    (htext : (linesOf '\n' text).all (fun line => !unlocks rt conf (trim line)) = true) :
    Blinded (s.handleLines rt pc conf w text) (s'.handleLines rt pc conf w' text) := by
  obtain ⟨lines, rest, hcut⟩ := exists_isCut '\n' text
  rw [linesOf_eq hcut] at htext
  have hlines : ∀ line ∈ lines, unlocks rt conf (trim line) = false :=
    fun line hmem => by simpa using List.all_eq_true.1 htext line hmem
  obtain ⟨hanswers, hlocked⟩ := h.core.answerAll pc w w' hlines
  rw [handleLines_eq rt pc conf w hcut, handleLines_eq rt pc conf w' hcut]
  refine ⟨hlocked, ?_⟩
  simp only [hanswers, h.wire, hlocked.crashed]

variable (rt conf)

/-- What arrives asks for no page and has no `api_authorize` with a password that is accepted. -/
def Guarded (s : Session keccak256 γ) : SessionEvent → Bool
  | .chunk rxMessage =>
    (searchHttp rt.bol true (s.wire.message ++ rxMessage)).all (fun r => !r.isPage) &&
      (linesOf '\n' (s.wire.message ++ rxMessage)).all fun line => !unlocks rt conf (trim line)
  | _ => true

variable {rt conf}

/-- **A step shows nothing.** -/
theorem Blinded.next (h : Blinded s s') {e : SessionEvent} (he : Guarded rt conf s e = true) :
    Blinded (s.next rt pc conf w e) (s'.next rt pc conf w' e) := by
  obtain ⟨core, wire⟩ := s
  obtain ⟨core', wire'⟩ := s'
  obtain rfl : wire = wire' := h.wire
  have hcrashed : core.crashed = core'.crashed := h.core.crashed
  cases e with
  | chunk rx =>
    obtain ⟨hpage, hlines⟩ := Bool.and_eq_true_iff.1 he
    simp only [Session.next, hcrashed]
    split_ifs
    · exact h
    · simp only [Session.onRecvSocketDataCompleted]
      split_ifs
      · exact ⟨h.core, rfl⟩
      · exact ⟨h.core, rfl⟩
      · have hreceived : Blinded ⟨core, { wire with message := wire.message ++ rx, reading := false }⟩
            ⟨core', { wire with message := wire.message ++ rx, reading := false }⟩ := ⟨h.core, rfl⟩
        cases hsearch : searchHttp rt.bol true (wire.message ++ rx) with
        | none => exact hreceived.handleLines pc w w' hlines
        | some r =>
          have hr : r.isPage = false := by simpa [hsearch] using hpage
          exact hreceived.handleHttp pc w w' hr
  | completed i =>
    simp only [Session.next, hcrashed]
    split_ifs
    · exact h
    · exact ⟨h.core, rfl⟩
  | failed =>
    simp only [Session.next, hcrashed]
    split_ifs
    · exact h
    · exact ⟨h.core, rfl⟩

theorem Blinded.run {es : List SessionEvent} (h : Blinded s s')
    (hes : Along (Session.next rt pc conf w) (fun s e => Guarded rt conf s e = true) s es) :
    Blinded (run (Session.next rt pc conf w) s es) (run (Session.next rt pc conf w') s' es) := by
  induction es generalizing s s' with
  | nil => exact h
  | cons e es ih => exact ih (h.next pc w w' hes.1) hes.2

/-- **A session without the password learns nothing**, if it asks for no page: it has the same
socket and buffers for any two miners. -/
theorem secrecy (rt : ApiRuntime) (pc : PoolClient γ τ ε) (conf : ApiSettings) (hpassword : conf.password ≠ [])
    (w w' : World keccak256 γ τ) (station station' : Station keccak256 γ) (es : List SessionEvent)
    (hes : Along (Session.next rt pc conf w) (fun s e => Guarded rt conf s e = true)
      ⟨⟨conf.password.isEmpty, station, 0, false⟩, {}⟩ es) :
    (run (Session.next rt pc conf w) ⟨⟨conf.password.isEmpty, station, 0, false⟩, {}⟩ es).wire =
      (run (Session.next rt pc conf w') ⟨⟨conf.password.isEmpty, station', 0, false⟩, {}⟩ es).wire := by
  have hlocked : conf.password.isEmpty = false := List.isEmpty_eq_false_iff.2 hpassword
  have hstart : Blinded (⟨⟨conf.password.isEmpty, station, 0, false⟩, {}⟩ : Session keccak256 γ)
      ⟨⟨conf.password.isEmpty, station', 0, false⟩, {}⟩ := ⟨⟨hlocked, hlocked, rfl⟩, rfl⟩
  exact (hstart.run pc w w' hes).wire

/-- A request that needs the password, and a page that is not there. -/
theorem secrecy_getstat1 :
    (run (Session.next echoApi getworkClient ⟨false, "secret".toList⟩ stillWorld) ⟨⟨false, minerless 1, 0, false⟩, {}⟩
        [.chunk "miner_getstat1\n".toList, .completed 0, .chunk "GET /stat HTTP/1.1\r\n".toList]).wire =
      (run (Session.next echoApi getworkClient ⟨false, "secret".toList⟩ stillWorld) ⟨⟨false, minerless 2, 0, false⟩, {}⟩
        [.chunk "miner_getstat1\n".toList, .completed 0, .chunk "GET /stat HTTP/1.1\r\n".toList]).wire :=
  secrecy echoApi getworkClient ⟨false, "secret".toList⟩ (by decide) stillWorld stillWorld (minerless 1) (minerless 2) _
    (by decide +kernel)

/-- The metrics tell two miners apart, without a password. -/
theorem metrics_reveal :
    let session (station : Station countingKeccak GetworkStatus) :=
      run (Session.next echoApi getworkClient ⟨false, "secret".toList⟩ stillWorld) ⟨⟨false, station, 0, false⟩, {}⟩
        [.chunk "GET /metrics HTTP/1.1\r\n".toList]
    (session (minerless 1)).wire.sendBuffer.transmitted ≠ (session (minerless 2)).wire.sendBuffer.transmitted := by
  decide +kernel

end Session

end Api
end EtcMiner
