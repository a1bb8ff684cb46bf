/-
# Polling after a response

A getwork client asks again for work when its timer runs out, and `processResponse` is what sets the
timer, on two of its branches.  So after the response to an `eth_getWork` request there is another
poll to come only if some body of the response takes one of the two, or if there was one to come
before.

`bodies` is what `handle_read` takes out of a response: the lines of its body, or nothing if the
status is not 200.  `reaction` is what a body does to a client whose pending request is
`eth_getWork`: it throws, does nothing, delays the next poll or brings a job.  **`polling_survives_iff`**
tells from these alone whether `handle_read` returns with the client disconnected or a poll to come.
-/

import EtcMiner.Getwork.Client

namespace EtcMiner
namespace Getwork

open Common Eth Lib Stratum

/-- The lines of a response that `handle_read` passes on, or none if the status is not 200. -/
def bodyLines : ℕ → ℕ → Bool → List Char → Option (List (List Char))
  | 0, _, _, _ => some []
  | fuel + 1, linenum, isHeader, rxMessage =>
    match splitLine rxMessage with
    | none => some []
    | some (line, rest) =>
      if line = [] then
        if (splitLine rest).isSome then bodyLines fuel (linenum + 1) false rest
        else some [rest.filter (· ≠ '\n')]
      else if isHeader ∧ linenum = 0 ∧ ¬ statusOk line then none
      else (bodyLines fuel (linenum + 1) isHeader rest).map (if isHeader then id else (line :: ·))

/-- The bodies of a response. -/
def bodies (rxMessage : List Char) : Option (List (List Char)) := bodyLines rxMessage.length 0 true rxMessage

/-- What a body does to a client that has asked for work. -/
inductive Reaction where
  | thrown
  | ignored
  | delayed
  | job (newWp : WorkPackage)

/-- The timer is set. -/
def Reaction.rearms : Reaction → Bool
  | .delayed | .job _ => true
  | _ => false

section Reactions

variable (rt : Runtime)

/-- The reaction to a JSON value. -/
def reaction : Json → Reaction
  | .null => .ignored
  | .obj members =>
    if (Json.find "id" members).isNone then .ignored
    else if ((Json.find "error" members).getD .null).empty then
      (Json.find "result" members).elim .ignored fun result => (newWork rt result).elim .thrown .job
    else if (processError rt (.obj members)).isSome then .delayed
    else .thrown
  | _ => .thrown

/-- The reaction to a line, which is ignored if it is no JSON text. -/
def lineReaction (line : List Char) : Reaction := (rt.parse line).elim .ignored (reaction rt)

variable (now : ℤ) (throws : WorkPackage → Bool)

/-- No exception escapes the reactions of a client whose last header is `header`. -/
def returns (header : H256) : List Reaction → Bool
  | [] => true
  | .thrown :: _ => false
  | .job newWp :: rs => (header = newWp.header || !throws newWp) && returns newWp.header rs
  | _ :: rs => returns header rs

/-- What the client does for a reaction. -/
def react : Reaction → GetworkM Unit
  | .thrown => throw .uncaught
  | .ignored => pure ()
  | .delayed => armTimer
  | .job newWp => do
    workReceived now throws newWp
    armTimer

variable {c : Client}

/-- The id of the pending request. -/
theorem pending_id : (getWorkRequest.get "id" (.int 0)).bind Json.asUInt = some 1 := by decide +kernel

theorem workResponse_eq_react (members : List (List Char × Json)) :
    workResponse rt now throws true (.obj members) = react now throws
      ((Json.find "result" members).elim .ignored fun result => (newWork rt result).elim .thrown .job) := by
  simp only [workResponse, Json.isMember, Json.get, Json.members?, Option.map_some, expect, ofOption_some_bind]
  cases Json.find "result" members with
  | none => rfl
  | some result =>
    rw [Option.getD_some, Option.elim_some]
    cases newWork rt result with
    | none => rfl
    | some newWp => rfl

theorem processResponse_eq_react (hc : c.pendingJReq = getWorkRequest) (jRes : Json) :
    processResponse rt now throws jRes c = react now throws (reaction rt jRes) c := by
  unfold processResponse
  cases jRes with
  | obj members =>
    simp only [Json.isMember, Json.members?, Option.map_some, expect, ofOption_some_bind, reaction]
    cases Json.find "id" members with
    | none => rfl
    | some id =>
      simp only [Option.isSome_some, if_true, run_get_bind, hc, pending_id, ofOption_some_bind]
      simp only [Json.get, Json.members?, Option.map_some, ofOption_some_bind, Option.isNone_some]
      cases ((Json.find "error" members).getD .null).empty with
      | true => exact congrFun (workResponse_eq_react rt now throws members) c
      | false =>
        cases processError rt (.obj members) with
        | none => rfl
        | some reason => rfl
  | null => rfl
  | _ => rfl

theorem processBody_eq_react (hc : c.pendingJReq = getWorkRequest) (line : List Char) :
    processBody rt now throws line c = react now throws (lineReaction rt line) c := by
  unfold processBody lineReaction
  cases rt.parse line with
  | none => rfl
  | some jRes => exact processResponse_eq_react rt now throws hc jRes

/-- What a reaction leaves alone. -/
structure SamePolls (c c' : Client) : Prop where
  pendingJReq : c'.pendingJReq = c.pendingJReq
  txQueue : c'.txQueue = c.txQueue
  endpoints : c'.endpoints = c.endpoints
  elapsed : c'.elapsed = c.elapsed
  ended : c'.ended = c.ended

theorem SamePolls.trans {a b c : Client} (hab : SamePolls a b) (hbc : SamePolls b c) : SamePolls a c where
  pendingJReq := hbc.pendingJReq.trans hab.pendingJReq
  txQueue := hbc.txQueue.trans hab.txQueue
  endpoints := hbc.endpoints.trans hab.endpoints
  elapsed := hbc.elapsed.trans hab.elapsed
  ended := hbc.ended.trans hab.ended

/-- One reaction. -/
theorem react_ends (r : Reaction) :
    Ends (react now throws r) c
      (fun _ c' => SamePolls c c' ∧ c'.timer = (c.timer || r.rearms) ∧
        ∀ rs, returns throws c.current.header (r :: rs) = returns throws c'.current.header rs)
      fun _ _ => ∀ rs, returns throws c.current.header (r :: rs) = false := by
  cases r with
  | thrown => exact fun _ => rfl
  | ignored => exact ⟨⟨rfl, rfl, rfl, rfl, rfl⟩, (Bool.or_false _).symm, fun _ => rfl⟩
  | delayed => exact ⟨⟨rfl, rfl, rfl, rfl, rfl⟩, (Bool.or_true _).symm, fun _ => rfl⟩
  | job newWp =>
    simp only [react, workReceived, armTimer, returns, Reaction.rearms, ends_bind, ends_get, ends_ite, ends_modify,
      ends_pure, ends_throw, Bool.or_true]
    refine ⟨fun hnew => ⟨fun hthrows rs => ?_, fun hquiet => ?_⟩, fun hold => ?_⟩
    · simp [hnew, hthrows]
    · exact ⟨⟨rfl, rfl, rfl, rfl, rfl⟩, trivial, fun rs => by simp [hquiet]⟩
    · exact ⟨⟨rfl, rfl, rfl, rfl, rfl⟩, trivial, fun rs => by simp [not_not.1 hold]⟩

/-- The lines of a response, one after the other. -/
theorem forM_ends (lines : List (List Char)) (hc : c.pendingJReq = getWorkRequest) :
    Ends (forM lines (processBody rt now throws)) c
      (fun _ c' => SamePolls c c' ∧ c'.timer = (c.timer || lines.any fun line => (lineReaction rt line).rearms) ∧
        returns throws c.current.header (lines.map (lineReaction rt)) = true)
      fun _ _ => returns throws c.current.header (lines.map (lineReaction rt)) = false := by
  induction lines generalizing c with
  | nil => exact ⟨⟨rfl, rfl, rfl, rfl, rfl⟩, (Bool.or_false _).symm, rfl⟩
  | cons line lines ih =>
    rw [List.forM_cons, ends_bind]
    refine Ends.congr (processBody_eq_react rt now throws hc line) ?_
    refine (react_ends now throws (lineReaction rt line)).imp ?_ ?_
    · rintro - c' ⟨hsame, htimer, hreturns⟩
      refine (ih (hsame.pendingJReq.trans hc)).imp ?_ ?_
      · rintro - c'' ⟨hsame', htimer', hreturns'⟩
        refine ⟨hsame.trans hsame', ?_, ?_⟩
        · rw [htimer', htimer, List.any_cons, Bool.or_assoc]
        · rw [List.map_cons, hreturns, hreturns']
      · intro _ _ hthrown
        rw [List.map_cons, hreturns, hthrown]
    · intro _ _ hthrown
      exact hthrown _

/-- Past the first line the status is not looked at. -/
theorem bodyLines_succ (fuel n : ℕ) (isHeader : Bool) (rxMessage : List Char) :
    ∃ lines, bodyLines fuel (n + 1) isHeader rxMessage = some lines := by
  induction fuel generalizing n isHeader rxMessage with
  | zero => exact ⟨[], rfl⟩
  | succ fuel ih =>
    unfold bodyLines
    cases splitLine rxMessage with
    | none => exact ⟨[], rfl⟩
    | some cut =>
      obtain ⟨lines, hlines⟩ := ih (n + 1) isHeader cut.2
      dsimp only
      split
      · split
        · exact ih (n + 1) false cut.2
        · exact ⟨_, rfl⟩
      · rw [if_neg fun hstatus => Nat.succ_ne_zero n hstatus.2.1, hlines]
        exact ⟨_, rfl⟩

/-- **The loop over the lines** is one over the bodies. -/
theorem readLines_eq (fuel n : ℕ) (isHeader : Bool) (rxMessage : List Char) :
    readLines rt now throws fuel n isHeader rxMessage =
      (bodyLines fuel n isHeader rxMessage).elim (do disconnect; return false)
        fun lines => do forM lines (processBody rt now throws); return true := by
  induction fuel generalizing n isHeader rxMessage with
  | zero => rfl
  | succ fuel ih =>
    unfold readLines bodyLines
    cases splitLine rxMessage with
    | none => rfl
    | some cut =>
      obtain ⟨lines, hlines⟩ := bodyLines_succ fuel n isHeader cut.2
      dsimp only
      split
      · split
        · exact ih (n + 1) false cut.2
        · simp
      · split
        · rfl
        · rw [ih, hlines]
          cases isHeader with
          | true => simp
          | false => simp

/-- A response that is not empty: its bodies, and then what waits in the queue. -/
theorem handleRead_eq {rxMessage : List Char} (hrx : rxMessage ≠ []) :
    handleRead rt now throws (.response rxMessage) =
      (bodies rxMessage).elim disconnect fun lines => (do forM lines (processBody rt now throws); sendNext) := by
  simp only [handleRead, if_neg hrx, readLines_eq]
  unfold bodies
  cases bodyLines rxMessage.length 0 true rxMessage with
  | none => rfl
  | some lines => simp

end Reactions

section Responses

variable (w : Writer) (rt : Runtime) (throws : WorkPackage → Bool)

/-- A poll is to come: a request is queued, the timer is set, or its handler is due. -/
def Client.Polls (c : Client) : Prop := jsonGetWork w ∈ c.txQueue ∨ c.timer = true ∨ c.elapsed ≠ 0

/-- A client that has sent an `eth_getWork` request and reads the response. -/
def Client.asked (c : Client) : Client := { c with pendingJReq := getWorkRequest, ended := false }

/-- The client disconnects at the response, or none of its bodies lets an exception escape and
a poll is to come: there was one before, or a body sets the timer.  With no endpoint left for
what is queued the client disconnects too. -/
def Survives (c : Client) (rxMessage : List Char) : Prop :=
  rxMessage = [] ∨
    (bodies rxMessage).elim True fun lines =>
      returns throws c.current.header (lines.map (lineReaction rt)) = true ∧
        (c.Polls w ∨ (c.txQueue ≠ [] ∧ c.endpoints = 0) ∨ ∃ line ∈ lines, (lineReaction rt line).rearms = true)

/-- What waits in the queue is no concern of the timer, but without an endpoint the client
disconnects. -/
theorem sendNext_ends (c : Client) :
    Ends sendNext c
      (fun _ c' => (c'.ended = true ∨ c'.Polls w) ↔
        c.ended = true ∨ c.Polls w ∨ (c.txQueue ≠ [] ∧ c.endpoints = 0))
      fun _ _ => False := by
  simp only [sendNext, beginConnect, disconnect, ends_bind, ends_get, ends_ite, ends_modify]
  refine ⟨fun hqueue => ⟨fun hleft => ?_, fun hnone => ?_⟩, fun hqueue => ?_⟩
  · simp [Client.Polls, hleft]
  · simp [hqueue, not_not.1 hnone]
  · simp [Client.Polls, hqueue]

/-- **When polling survives a response.**  Whatever the response to an `eth_getWork` request,
`handle_read` returns with the client disconnected or a poll to come exactly under the condition. -/
theorem polling_survives_iff (now : ℤ) (c : Client) (rxMessage : List Char) :
    (thrown (handleRead rt now throws (.response rxMessage)) c.asked = none ∧
        ((final (handleRead rt now throws (.response rxMessage)) c.asked).ended = true ∨
          (final (handleRead rt now throws (.response rxMessage)) c.asked).Polls w)) ↔
      Survives w rt throws c rxMessage := by
  rw [← ends_iff_returns (R := fun c' : Client => c'.ended = true ∨ c'.Polls w)]
  unfold Survives
  by_cases hempty : rxMessage = []
  · simp [hempty, handleRead, disconnect]
  rw [handleRead_eq rt now throws hempty]
  cases bodies rxMessage with
  | none => simp [disconnect]
  | some lines =>
    apply Ends.iff
    rw [Option.elim_some, ends_bind]
    refine (forM_ends rt now throws lines rfl).imp ?_ ?_
    · rintro - c' ⟨hsame, htimer, hreturns⟩
      refine (sendNext_ends w c').imp (fun _ c'' h => h.trans ?_) fun _ _ h => h.elim
      have hrearms : c'.timer = true ↔ c.timer = true ∨ ∃ line ∈ lines, (lineReaction rt line).rearms = true := by
        rw [htimer, Bool.or_eq_true, List.any_eq_true]
        rfl
      have hended : c'.ended = false := hsame.ended
      have hqueue : c'.txQueue = c.txQueue := hsame.txQueue
      have hendpoints : c'.endpoints = c.endpoints := hsame.endpoints
      have helapsed : c'.elapsed = c.elapsed := hsame.elapsed
      have hreturns : returns throws c.current.header (lines.map (lineReaction rt)) = true := hreturns
      simp only [Client.Polls, hended, hqueue, hendpoints, helapsed, hrearms, hempty, hreturns, Option.elim_some,
        Bool.false_eq_true, false_or, true_and, or_assoc, or_comm, or_left_comm]
    · intro _ _ hthrown
      have hthrown : returns throws c.current.header (lines.map (lineReaction rt)) = false := hthrown
      simp [hempty, hthrown]

end Responses

section Silence

/-- Any writer will do. -/
def silentWriter : Writer where
  writeString _ := ['w']
  ne_nil _ := List.cons_ne_nil _ _

/-- The text of a response whose result is not a hash. -/
def badResult : List Char := "\x7b\"id\":1,\"result\":[\"zz\"]\x7d".toList

def silentRuntime : Runtime where
  parse line :=
    if line = badResult then
      some (.obj [("id".toList, .int 1), ("result".toList, .arr [.text "zz"])])
    else none
  valueToString _ := []
  lexicalCast _ := []
  toDouble q := q
  projectNameWithVersion := []

/-- A client that waits for the response to its only request. -/
def silentClient : Client where
  nodes := 1
  solutionSubmittedMaxId := 0
  connected := true
  session := true
  txPending := true
  endpoints := 1
  pendingJReq := getWorkRequest

/-- `handle_read` of a response with the status 200 and the body `body`. -/
def silentRead (body : List Char) : GetworkM Unit :=
  handleRead silentRuntime 0 (fun _ => false) (.response ("HTTP/1.1 200 OK\r\n\r\n".toList ++ body))

/-- **Polling ends in silence** at a body that is no JSON text, and with an exception at a result
that is not a hash. -/
theorem polling_dies :
    (thrown (silentRead ['x']) silentClient.asked = none ∧
      ¬ ((final (silentRead ['x']) silentClient.asked).ended = true ∨
        (final (silentRead ['x']) silentClient.asked).Polls silentWriter)) ∧
      thrown (silentRead badResult) silentClient.asked = some .uncaught := by
  unfold Client.Polls
  decide +kernel

end Silence

end Getwork
end EtcMiner
