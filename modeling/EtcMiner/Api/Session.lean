/-
# A session of the API

`ApiConnection::onRecvSocketDataCompleted`, `sendSocketData`, `onSendSocketDataCompleted` and
`disconnect` in `libapi/ApiServer.cpp`.  What is received is added to `m_message`.  If the text
looks like an HTTP request it is answered with a page and the session ends after that;
otherwise each line of it is a JSON request.  Every answer goes into one buffer and starts a
write of its own.

The regular expression is deterministic: a method of one to six capital letters, a path without
white space, and a version.  Where `^` matches inside of a text differs between libraries
(`ApiRuntime.bol`).

`World` is what the outside does: `drift n` is what the rest of the miner has done before the
request number `n` is served, and `env n` is what it supplies then.  `answers` is no variable of
the code: it records the texts given to `sendSocketData`.
-/

import EtcMiner.Api.ProcessRequest
import EtcMiner.Lib.AsyncWrite
import EtcMiner.Lib.Lines
import EtcMiner.Lib.Run

namespace EtcMiner
namespace Api

open Common Eth Ethash Lib Pool Stratum

/-- What `http_pattern` finds. -/
structure HttpRequest where
  method : List Char
  path : List Char
  version : List Char
deriving DecidableEq

/-- `HTTP\/1\.[0-9]` at the front of a text. -/
def httpVersion : List Char → Option (List Char)
  | 'H' :: 'T' :: 'T' :: 'P' :: '/' :: '1' :: '.' :: d :: _ =>
    if d.isDigit then some ("HTTP/1.".toList ++ [d]) else none
  | _ => none

/-- `http_pattern` at the front of a text. -/
def httpAt (text : List Char) : Option HttpRequest :=
  let method := text.takeWhile Char.isUpper
  if method = [] ∨ 6 < method.length then none
  else match text.drop method.length with
    | ' ' :: '/' :: rest =>
      let path := rest.takeWhile fun c => !isSpace c
      match rest.drop path.length with
      | ' ' :: rest => (httpVersion rest).map fun version => ⟨method, '/' :: path, version⟩
      | _ => none
    | _ => none

/-- `regex_search(m_message, http_matches, http_pattern)`; `^` matches here if `start`. -/
def searchHttp (bol : Char → Bool) : Bool → List Char → Option HttpRequest
  | _, [] => none
  | start, c :: cs =>
    match if start then httpAt (c :: cs) else none with
    | some r => some r
    | none => searchHttp bol (bol c) cs

/-- The request asks for a page of the miner. -/
def HttpRequest.isPage (r : HttpRequest) : Bool :=
  r.method = "GET".toList && (r.path = "/".toList || r.path = "/getstat1".toList || r.path = "/metrics".toList)

/-- The socket and the buffers of a session.  `closing` has the `_disconnect` of the writes under
way. -/
structure Wire where
  message : List Char := []
  isOpen : Bool := true
  reading : Bool := true
  sendBuffer : OutStream Char := {}
  closing : List Bool := []
  answers : List (List Char) := []
deriving DecidableEq

/-- `sendSocketData(_s, _disconnect)`. -/
def Wire.sendSocketData (w : Wire) (text : List Char) (disconnect : Bool) : Wire :=
  if w.isOpen then
    { w with
      sendBuffer := (w.sendBuffer.put text).asyncWrite
      closing := w.closing ++ [disconnect]
      answers := w.answers ++ [text] }
  else w

/-- `disconnect()`. -/
def Wire.disconnect (w : Wire) : Wire := { w with isOpen := false, reading := false }

/-- `onSendSocketDataCompleted` for write `i`, without an error. -/
def Wire.onSendSocketDataCompleted (w : Wire) (i : ℕ) : Wire :=
  let done : Wire := { w with sendBuffer := w.sendBuffer.complete i, closing := w.closing.eraseIdx i }
  if w.closing.getD i false then done.disconnect else done

/-- What the requests of a session are served with. -/
structure Core (keccak256 : Hash 8 → Hash 8) (γ : Type) where
  authenticated : Bool
  station : Station keccak256 γ
  served : ℕ := 0
  crashed : Bool := false

/-- A session. -/
structure Session (keccak256 : Hash 8 → Hash 8) (γ : Type) where
  core : Core keccak256 γ
  wire : Wire := {}

/-- What the outside does in the course of a session. -/
structure World (keccak256 : Hash 8 → Hash 8) (γ τ : Type) where
  env : ℕ → Env τ
  drift : ℕ → Station keccak256 γ → Station keccak256 γ

/-- What happens in a session: a read completes, a write completes, or one of them fails. -/
inductive SessionEvent where
  | chunk (rxMessage : List Char)
  | completed (i : ℕ)
  | failed
deriving DecidableEq

variable {keccak256 : Hash 8 → Hash 8} {γ τ ε : Type}

section Serve

variable (rt : ApiRuntime) (pc : PoolClient γ τ ε) (conf : ApiSettings) (w : World keccak256 γ τ)

/-- The response to what could not be served. -/
def failureJson (errorcode : String) (message : List Char) : Json :=
  .obj [("error".toList, .obj [("errorcode".toList, .text errorcode), ("message".toList, .str message)]),
    ("id".toList, .null), ("jsonrpc".toList, .text "2.0")]

/-- A line is parsed and processed; there is no response if the process ends. -/
def respond (env : Env τ) (line : List Char) (authenticated : Bool) (station : Station keccak256 γ) :
    Turn keccak256 γ × Option Json :=
  match rt.parse line with
  | .error what =>
    (⟨authenticated, station, {}⟩, some (failureJson "-32700"
      ("Json parse error : ".toList ++ what.map fun c => if c = '\n' then ' ' else c)))
  | .ok jMsg =>
    match processRequest rt pc conf env jMsg ⟨authenticated, station, {}⟩ with
    | .ok _ t => (t, some t.response.toJson)
    | .error (.thrown e) t => (t, some (failureJson "500" (rt.what e)))
    | .error .crash t => (t, none)

/-- What the loop does with a line, and the text that is sent. -/
def Core.answer (k : Core keccak256 γ) (line : List Char) : Core keccak256 γ × Option (List Char) :=
  if k.crashed ∨ trim line = [] then (k, none)
  else
    let r := respond rt pc conf (w.env k.served) (trim line) k.authenticated (w.drift k.served k.station)
    (⟨r.1.authenticated, r.1.station, k.served + 1, r.2.isNone⟩,
      r.2.map fun jRes => rt.writeString jRes ++ ['\n'])

/-- A line of the transmission. -/
def Session.handleLine (s : Session keccak256 γ) (line : List Char) : Session keccak256 γ :=
  match s.core.answer rt pc conf w line with
  | (core, none) => { s with core := core }
  | (core, some text) => ⟨core, s.wire.sendSocketData text false⟩

/-- An HTTP response. -/
def httpResponse (version : List Char) (status contentType : String) (body : List Char) : List Char :=
  version ++ (" " ++ status ++ "\r\nServer: ").toList ++ rt.projectNameWithVersion ++
    ("\r\nContent-Type: " ++ contentType ++ "\r\nContent-Length: ").toList ++ decimal body.length ++
    "\r\n\r\n".toList ++ body

/-- The page that is asked for, and whether it is there; a null pointer that is followed ends the
process. -/
def page (r : HttpRequest) (env : Env τ) (station : Station keccak256 γ) : Option (List Char) :=
  let body := if r.path = "/metrics".toList then getHttpMinerMetrics rt pc env.now station
    else getHttpMinerStatDetail rt pc env.now station
  let contentType := if r.path = "/metrics".toList then "text/plain; charset=utf-8" else "text/html; charset=utf-8"
  match body with
  | .ok body => some (httpResponse rt r.version "200 OK" contentType body)
  | .error (.thrown e) =>
    some (httpResponse rt r.version "500 Internal Server Error" "text/plain" ("Internal error : ".toList ++ rt.what e))
  | .error .crash => none

/-- The answer to a request that asks for no page. -/
def noPage (r : HttpRequest) : List Char :=
  if r.method ≠ "GET".toList then
    httpResponse rt r.version "405 Method not allowed" "text/plain"
      ("Method ".toList ++ r.method ++ " not allowed".toList)
  else
    httpResponse rt r.version "404 Not Found" "text/plain"
      ("The requested resource ".toList ++ r.path ++ " not found on this server".toList)

/-- "We got an HTTP request". -/
def Session.handleHttp (s : Session keccak256 γ) (r : HttpRequest) : Session keccak256 γ :=
  if r.isPage then
    let station := w.drift s.core.served s.core.station
    let core := { s.core with station := station, served := s.core.served + 1 }
    match page rt pc r (w.env s.core.served) station with
    | some text => ⟨core, { s.wire.sendSocketData text true with message := [] }⟩
    | none => { s with core := { core with crashed := true } }
  else { s with wire := { s.wire.sendSocketData (noPage rt r) true with message := [] } }

/-- The loop over the lines of `m_message`. -/
def Session.handleLines (s : Session keccak256 γ) (text : List Char) : Session keccak256 γ :=
  let loop : StateM (Session keccak256 γ) (List Char) :=
    eachLine '\n' (fun line => modify fun s => s.handleLine rt pc conf w line) text
  let (rest, s) := loop s
  { s with wire := { s.wire with message := rest, reading := s.wire.isOpen && !s.core.crashed } }

/-- `onRecvSocketDataCompleted` without an error. -/
def Session.onRecvSocketDataCompleted (s : Session keccak256 γ) (rxMessage : List Char) : Session keccak256 γ :=
  if rxMessage = [] then { s with wire := s.wire.disconnect }
  else
    let message := s.wire.message ++ rxMessage
    let s := { s with wire := { s.wire with message := message, reading := false } }
    if message.length < 4 then s -- "Wait for other data to come in", with no read under way
    else match searchHttp rt.bol true message with
      | some r => s.handleHttp rt pc w r
      | none => s.handleLines rt pc conf w message

/-- One step of a session.  What is not under way does not complete. -/
def Session.next (s : Session keccak256 γ) : SessionEvent → Session keccak256 γ
  | .chunk rxMessage =>
    if s.core.crashed ∨ s.wire.reading = false then s else s.onRecvSocketDataCompleted rt pc conf w rxMessage
  | .completed i =>
    if s.core.crashed ∨ s.wire.isOpen = false ∨ s.wire.sendBuffer.writes.length ≤ i then s
    else { s with wire := s.wire.onSendSocketDataCompleted i }
  | .failed => if s.core.crashed then s else { s with wire := s.wire.disconnect }

/-- The lines are answered one after the other. -/
def Core.answerAll (k : Core keccak256 γ) : List (List Char) → Core keccak256 γ × List (List Char)
  | [] => (k, [])
  | line :: lines =>
    let r := k.answer rt pc conf w line
    let rs := r.1.answerAll lines
    (rs.1, r.2.toList ++ rs.2)

/-- The texts are sent one after the other. -/
def Wire.sendAll (v : Wire) (texts : List (List Char)) : Wire :=
  texts.foldl (fun v text => v.sendSocketData text false) v

variable {s : Session keccak256 γ}

/-- Serving lines is answering them and sending the answers. -/
theorem foldl_handleLine (lines : List (List Char)) :
    lines.foldl (fun s line => s.handleLine rt pc conf w line) s =
      ⟨(s.core.answerAll rt pc conf w lines).1, s.wire.sendAll (s.core.answerAll rt pc conf w lines).2⟩ := by
  induction lines generalizing s with
  | nil => rfl
  | cons line lines ih =>
    rw [List.foldl_cons, ih]
    unfold Session.handleLine
    simp only [Core.answerAll]
    cases hanswer : s.core.answer rt pc conf w line with
    | mk core text => cases text <;> rfl

theorem handleLines_eq {text rest : List Char} {lines : List (List Char)} (hcut : IsCut '\n' text lines rest) :
    s.handleLines rt pc conf w text =
      let answered := s.core.answerAll rt pc conf w lines
      let sent := s.wire.sendAll answered.2
      ⟨answered.1, { sent with message := rest, reading := sent.isOpen && !answered.1.crashed }⟩ := by
  have hloop : (eachLine '\n' (fun line => modify fun s => s.handleLine rt pc conf w line) text :
      StateM (Session keccak256 γ) (List Char)) s =
        (rest, lines.foldl (fun s line => s.handleLine rt pc conf w line) s) := by
    rw [eachLine_eq hcut]
    exact congrArg (fun p : Unit × Session keccak256 γ => (rest, p.2)) (forM_modify _ lines s)
  unfold Session.handleLines
  simp only [hloop, foldl_handleLine]

theorem answerAll_append (k : Core keccak256 γ) (lines lines' : List (List Char)) :
    k.answerAll rt pc conf w (lines ++ lines') =
      let r := k.answerAll rt pc conf w lines
      ((r.1.answerAll rt pc conf w lines').1, r.2 ++ (r.1.answerAll rt pc conf w lines').2) := by
  induction lines generalizing k with
  | nil => rfl
  | cons line lines ih => simp only [List.cons_append, Core.answerAll, ih, List.append_assoc]

/-- Nothing is answered after the process has ended. -/
theorem answerAll_of_crashed {k : Core keccak256 γ} (h : k.crashed = true) (lines : List (List Char)) :
    k.answerAll rt pc conf w lines = (k, []) := by
  induction lines with
  | nil => rfl
  | cons line lines ih =>
    have hanswer : k.answer rt pc conf w line = (k, none) := if_pos (.inl h)
    simp only [Core.answerAll, hanswer, ih, Option.toList_none, List.nil_append]

theorem sendAll_of_closed {v : Wire} (h : v.isOpen = false) (texts : List (List Char)) : v.sendAll texts = v := by
  induction texts with
  | nil => rfl
  | cons text texts ih =>
    have hsend : v.sendSocketData text false = v := by simp [Wire.sendSocketData, h]
    rw [Wire.sendAll, List.foldl_cons, hsend]
    exact ih

theorem sendAll_of_isOpen {v : Wire} (h : v.isOpen = true) (texts : List (List Char)) :
    v.sendAll texts = { v with
      sendBuffer := v.sendBuffer.sendAll texts
      closing := v.closing ++ List.replicate texts.length false
      answers := v.answers ++ texts } := by
  induction texts generalizing v with
  | nil => simp [Wire.sendAll, OutStream.sendAll]
  | cons text texts ih =>
    have hsend : v.sendSocketData text false = { v with
        sendBuffer := (v.sendBuffer.put text).asyncWrite
        closing := v.closing ++ [false]
        answers := v.answers ++ [text] } := if_pos h
    rw [Wire.sendAll, List.foldl_cons, hsend]
    show Wire.sendAll _ texts = _
    rw [ih (by exact h)]
    simp [OutStream.sendAll, List.replicate_succ, List.append_assoc]

end Serve

end Api
end EtcMiner
