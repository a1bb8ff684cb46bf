/-
# What a session transmits

Every answer of a session is added to `m_sendBuffer`, and starts a write of its own
(`sendSocketData`).  A write transmits all that the buffer holds when it starts
(`Lib.OutStream`), so that an answer which is still in the buffer, because its write is under
way, is transmitted again with the next one.

`next_sends` says once what a step sends.  **The answers are transmitted in order, each once,
exactly if each of them is sent with an empty buffer** (`delivery_iff`): not by a client that has
two requests in one piece, or sends the second before the first answer is written.
-/

import EtcMiner.Api.Framing

namespace EtcMiner
namespace Api

open Common Eth Ethash Lib Pool Stratum

variable {keccak256 : Hash 8 → Hash 8} {γ τ ε : Type} (rt : ApiRuntime) (pc : PoolClient γ τ ε)
  (conf : ApiSettings) (w : World keccak256 γ τ)

/-- `v'` has sent `texts` since `v`. -/
structure Wire.Sends (v v' : Wire) (texts : List (List Char)) : Prop where
  nonempty : ∀ text ∈ texts, text ≠ []
  answers : v'.answers = v.answers ++ texts
  transmitted : v'.sendBuffer.transmitted = (v.sendBuffer.sendAll texts).transmitted

theorem Wire.Sends.nothing {v v' : Wire} (hanswers : v'.answers = v.answers)
    (htransmitted : v'.sendBuffer.transmitted = v.sendBuffer.transmitted) : v.Sends v' [] :=
  ⟨nofun, hanswers.trans (List.append_nil _).symm, htransmitted⟩

/-- `sendSocketData` for several texts; a socket that is closed sends nothing. -/
theorem Wire.exists_sends_sendAll (v : Wire) {texts : List (List Char)} (htexts : ∀ text ∈ texts, text ≠ []) :
    ∃ sent, v.Sends (v.sendAll texts) sent := by
  cases hopen : v.isOpen with
  | false => exact ⟨[], by rw [sendAll_of_closed hopen]; exact .nothing rfl rfl⟩
  | true => exact ⟨texts, by rw [sendAll_of_isOpen hopen]; exact ⟨htexts, rfl, rfl⟩⟩

theorem Wire.exists_sends_sendSocketData (v : Wire) {text : List Char} (disconnect : Bool) (htext : text ≠ []) :
    ∃ sent, v.Sends (v.sendSocketData text disconnect) sent := by
  unfold Wire.sendSocketData
  split_ifs with hopen
  · exact ⟨[text], by simpa using htext, rfl, rfl⟩
  · exact ⟨[], .nothing rfl rfl⟩

/-- An answer ends with a newline. -/
theorem answerAll_ne_nil (k : Core keccak256 γ) (lines : List (List Char)) :
    ∀ text ∈ (k.answerAll rt pc conf w lines).2, text ≠ [] := by
  induction lines generalizing k with
  | nil => exact nofun
  | cons line lines ih =>
    intro text hmem
    cases List.mem_append.1 hmem with
    | inl hfirst =>
      unfold Core.answer at hfirst
      split_ifs at hfirst
      · simp at hfirst
      · obtain ⟨jRes, -, rfl⟩ := Option.map_eq_some_iff.1 (Option.mem_toList.1 hfirst)
        exact List.append_ne_nil_of_right_ne_nil _ (List.cons_ne_nil _ _)
    | inr hrest => exact ih _ text hrest

theorem httpResponse_ne_nil (version : List Char) (status contentType : String) (body : List Char) :
    httpResponse rt version status contentType body ≠ [] := by
  unfold httpResponse
  simp

theorem page_ne_nil {r : HttpRequest} {env : Env τ} {station : Station keccak256 γ} {text : List Char}
    (h : page rt pc r env station = some text) : text ≠ [] := by
  unfold page at h
  simp only at h
  split at h
  · exact Option.some.inj h ▸ httpResponse_ne_nil rt _ _ _ _
  · exact Option.some.inj h ▸ httpResponse_ne_nil rt _ _ _ _
  · simp at h

theorem noPage_ne_nil (r : HttpRequest) : noPage rt r ≠ [] := by
  unfold noPage
  split_ifs <;> exact httpResponse_ne_nil rt _ _ _ _

theorem handleHttp_sends (s : Session keccak256 γ) (r : HttpRequest) :
    ∃ sent, s.wire.Sends (s.handleHttp rt pc w r).wire sent := by
  unfold Session.handleHttp
  split_ifs
  · simp only
    cases hpage : page rt pc r (w.env s.core.served) (w.drift s.core.served s.core.station) with
    | none => exact ⟨[], .nothing rfl rfl⟩
    | some text =>
      obtain ⟨sent, h⟩ := s.wire.exists_sends_sendSocketData true (page_ne_nil rt pc hpage)
      exact ⟨sent, { h with }⟩
  · obtain ⟨sent, h⟩ := s.wire.exists_sends_sendSocketData true (noPage_ne_nil rt r)
    exact ⟨sent, { h with }⟩

theorem handleLines_sends (s : Session keccak256 γ) (text : List Char) :
    ∃ sent, s.wire.Sends (s.handleLines rt pc conf w text).wire sent := by
  obtain ⟨lines, rest, hcut⟩ := exists_isCut '\n' text
  obtain ⟨sent, h⟩ := s.wire.exists_sends_sendAll
    (answerAll_ne_nil rt pc conf w s.core lines)
  rw [handleLines_eq rt pc conf w hcut]
  exact ⟨sent, { h with }⟩

theorem onRecvSocketDataCompleted_sends (s : Session keccak256 γ) (rx : List Char) :
    ∃ sent, s.wire.Sends (s.onRecvSocketDataCompleted rt pc conf w rx).wire sent := by
  simp only [Session.onRecvSocketDataCompleted]
  split_ifs
  · exact ⟨[], .nothing rfl rfl⟩
  · exact ⟨[], .nothing rfl rfl⟩
  · split
    case h_1 r _ =>
      obtain ⟨sent, h⟩ := handleHttp_sends rt pc w _ r
      exact ⟨sent, { h with }⟩
    case h_2 =>
      obtain ⟨sent, h⟩ := handleLines_sends rt pc conf w _ (s.wire.message ++ rx)
      exact ⟨sent, { h with }⟩

/-- **What a step sends.** -/
theorem next_sends (s : Session keccak256 γ) (e : SessionEvent) :
    ∃ sent, s.wire.Sends (s.next rt pc conf w e).wire sent := by
  cases e with
  | chunk rx =>
    simp only [Session.next]
    split_ifs
    · exact ⟨[], .nothing rfl rfl⟩
    · exact onRecvSocketDataCompleted_sends rt pc conf w s rx
  | completed i =>
    simp only [Session.next, Wire.onSendSocketDataCompleted]
    split_ifs <;> exact ⟨[], .nothing rfl rfl⟩
  | failed =>
    simp only [Session.next]
    split_ifs <;> exact ⟨[], .nothing rfl rfl⟩

/-- The step answers once at most, and with an empty buffer. -/
def AnswersAlone (s : Session keccak256 γ) (e : SessionEvent) : Prop :=
  (s.next rt pc conf w e).wire.answers.length ≤ s.wire.answers.length + 1 ∧
    ((s.next rt pc conf w e).wire.answers ≠ s.wire.answers → s.wire.sendBuffer.buffer = [])

theorem Wire.Sends.answersAlone_iff {s : Session keccak256 γ} {e : SessionEvent} {sent : List (List Char)}
    (h : s.wire.Sends (s.next rt pc conf w e).wire sent) :
    AnswersAlone rt pc conf w s e ↔ s.wire.sendBuffer.Alone sent := by
  rw [AnswersAlone, OutStream.Alone, h.answers, List.length_append, Nat.add_le_add_iff_left, Ne,
    List.append_right_eq_self]

/-- **The answers are transmitted in order, each once**, exactly if each is sent with an empty
buffer. -/
theorem delivery_iff (core : Core keccak256 γ) (es : List SessionEvent) :
    let s := run (Session.next rt pc conf w) ⟨core, {}⟩ es
    s.wire.sendBuffer.transmitted = s.wire.answers.flatten ↔
      Along (Session.next rt pc conf w) (AnswersAlone rt pc conf w) ⟨core, {}⟩ es := by
  -- more has been transmitted than was answered, and nothing takes that back
  let Excess (s : Session keccak256 γ) : Prop :=
    s.wire.answers.flatten.length < s.wire.sendBuffer.transmitted.length
  have hlost (s : Session keccak256 γ) (h : Excess s) :
      ¬ s.wire.sendBuffer.transmitted = s.wire.answers.flatten :=
    fun heq => absurd (congrArg List.length heq) (Nat.ne_of_gt h)
  refine @run_iff_along _ _ (Session.next rt pc conf w) _ _
    (fun s => s.wire.sendBuffer.transmitted = s.wire.answers.flatten) Excess hlost rfl ?_ ?_ ?_ es
  · intro s e hs halone
    obtain ⟨sent, h⟩ := next_sends rt pc conf w s e
    have hsent := OutStream.transmitted_sendAll ((h.answersAlone_iff rt pc conf w).1 halone)
    rw [h.transmitted, h.answers, hsent, hs, List.flatten_append]
  · intro s e hs hnot
    obtain ⟨sent, h⟩ := next_sends rt pc conf w s e
    have hsent := OutStream.length_lt_transmitted_sendAll h.nonempty
      (fun halone => hnot ((h.answersAlone_iff rt pc conf w).2 halone))
    show (s.next rt pc conf w e).wire.answers.flatten.length < (s.next rt pc conf w e).wire.sendBuffer.transmitted.length
    rw [h.transmitted, h.answers, List.flatten_append, List.length_append, ← hs]
    exact hsent
  · intro s e hs
    obtain ⟨sent, h⟩ := next_sends rt pc conf w s e
    have hsent := OutStream.length_le_transmitted_sendAll s.wire.sendBuffer sent
    show (s.next rt pc conf w e).wire.answers.flatten.length < (s.next rt pc conf w e).wire.sendBuffer.transmitted.length
    rw [h.transmitted, h.answers, List.flatten_append, List.length_append]
    exact Nat.lt_of_lt_of_le (Nat.add_lt_add_right hs _) hsent

/-- Two requests in one piece: the first answer is transmitted twice. -/
theorem pipelined_transmitted_twice :
    let s := run (Session.next echoApi getworkClient ⟨false, []⟩ stillWorld) ⟨⟨true, minerless 1, 0, false⟩, {}⟩
      [.chunk "miner_ping\nminer_ping\n".toList]
    s.wire.answers = ["ok\n".toList, "ok\n".toList] ∧
      s.wire.sendBuffer.transmitted = "ok\nok\nok\n".toList ∧
      s.wire.sendBuffer.transmitted ≠ s.wire.answers.flatten := by
  decide +kernel

end Api
end EtcMiner
