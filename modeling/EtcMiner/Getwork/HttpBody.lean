/-
# The body of a response

`handle_read` takes a response apart with one loop.  The first line is the status, the ones up to
an empty line are headers, and the body follows.  It is taken in one of two ways: with a line end
behind it the body is one more line, and without one it is all that is left of the response, and
the line feeds in it are dropped.

`HttpResponse` is a response of the form a server gives, with the value of its document.  That
the JSON reader does not mind line feeds between tokens is an assumption about the library, made
for the document at hand (`parse_joined`).  Such a response has one body, whichever way it is taken
(`HttpResponse.bodies_text`), so its value is processed once: **`response_processed_once`**.
-/

import EtcMiner.Getwork.Delivery

namespace EtcMiner
namespace Getwork

open Common Eth Lib Stratum

/-- The end of a line. -/
def crlf : List Char := ['\r', '\n']

/-- There is no line end in a text. -/
def Unbroken (text : List Char) : Prop := ¬ crlf <:+: text

instance (text : List Char) : Decidable (Unbroken text) := inferInstanceAs (Decidable (¬ _))

theorem Unbroken.of_cons {c : Char} {text : List Char} (h : Unbroken (c :: text)) : Unbroken text :=
  fun hin => h (List.infix_cons hin)

theorem Unbroken.head {c d : Char} {text : List Char} (h : Unbroken (c :: d :: text)) : ¬ (c = '\r' ∧ d = '\n') := by
  rintro ⟨rfl, rfl⟩
  exact h (List.prefix_append crlf text).isInfix

theorem splitLine_of_unbroken {text : List Char} (h : Unbroken text) : splitLine text = none := by
  induction text with
  | nil => rfl
  | cons c text ih =>
    cases text with
    | nil => rfl
    | cons d text => rw [splitLine, if_neg h.head, ih h.of_cons, Option.map_none]

/-- A line is cut off at its end. -/
theorem splitLine_append {line : List Char} (h : Unbroken line) (rest : List Char) :
    splitLine (line ++ (crlf ++ rest)) = some (line, rest) := by
  induction line with
  | nil => exact if_pos ⟨rfl, rfl⟩
  | cons c line ih =>
    cases line with
    | nil =>
      -- the line end begins behind `c`, even if that is a carriage return
      have hnot : ¬ (c = '\r' ∧ '\r' = '\n') := fun hc => absurd hc.2 (by decide)
      have hcut : splitLine ('\r' :: '\n' :: rest) = some ([], rest) := if_pos ⟨rfl, rfl⟩
      change splitLine (c :: '\r' :: '\n' :: rest) = _
      rw [splitLine, if_neg hnot, hcut, Option.map_some]
    | cons d line =>
      have hcut := ih h.of_cons
      rw [List.cons_append] at hcut
      rw [List.cons_append, List.cons_append, splitLine, if_neg h.head, hcut, Option.map_some]

/-- The first line of a response: `HTTP/1.x 200 ...`. -/
def statusLine (minor reason : List Char) : List Char :=
  "HTTP/1.".toList ++ minor ++ " 200".toList ++ reason

theorem statusOk_statusLine {minor : List Char} (hminor : ' ' ∉ minor) (reason : List Char) :
    statusOk (statusLine minor reason) = true := by
  have hdrop : (statusLine minor reason).dropWhile (· ≠ ' ') = " 200".toList ++ reason := by
    have hdigits : ∀ c ∈ minor, decide (c ≠ ' ') = true := fun c hc => decide_eq_true fun h => hminor (h ▸ hc)
    unfold statusLine
    rw [List.append_assoc, List.append_assoc, List.dropWhile_append_of_pos, List.dropWhile_append_of_pos hdigits]
    · simp
    · simp
  have htake : (statusLine minor reason).take 7 = "HTTP/1.".toList := by
    unfold statusLine
    simp
  have hspace : (statusLine minor reason).contains ' ' = true := by
    unfold statusLine
    simp
  rw [statusOk, hdrop, htake, hspace]
  simp

/-- The lines of a text, each with its end. -/
def joinLines (lines : List (List Char)) : List Char := (lines.map (· ++ crlf)).flatten

theorem length_le_joinLines (lines : List (List Char)) : lines.length ≤ (joinLines lines).length := by
  induction lines with
  | nil => exact Nat.zero_le _
  | cons line lines ih =>
    have hcons : joinLines (line :: lines) = line ++ crlf ++ joinLines lines := rfl
    rw [hcons, List.length_cons, List.length_append, List.length_append]
    exact Nat.add_comm _ 1 ▸ Nat.add_le_add (Nat.le_add_left_of_le (by decide)) ih

/-- A response with one JSON document for a body. -/
structure HttpResponse (rt : Runtime) where
  minor : List Char
  reason : List Char
  headers : List (List Char)
  body : List Char
  trailing : Bool
  value : Json
  minor_space : ' ' ∉ minor
  status_unbroken : Unbroken (statusLine minor reason)
  headers_line : ∀ line ∈ headers, line ≠ [] ∧ Unbroken line
  body_ne_nil : body ≠ []
  body_unbroken : Unbroken body
  parse_body : rt.parse body = some value
  parse_joined : rt.parse (body.filter (· ≠ '\n')) = some value

namespace HttpResponse

variable {rt : Runtime} (r : HttpResponse rt)

/-- What comes after the status line. -/
def afterStatus : List Char :=
  joinLines r.headers ++ (crlf ++ (r.body ++ if r.trailing then crlf else []))

/-- The text of a response. -/
def text : List Char := statusLine r.minor r.reason ++ (crlf ++ r.afterStatus)

/-- The body as it is handed to the JSON reader. -/
def document : List Char := if r.trailing then r.body else r.body.filter (· ≠ '\n')

theorem parse_document : rt.parse r.document = some r.value := by
  unfold document
  split
  · exact r.parse_body
  · exact r.parse_joined

end HttpResponse

/-- Header lines are passed over. -/
theorem bodyLines_headers {headers : List (List Char)} (h : ∀ line ∈ headers, line ≠ [] ∧ Unbroken line)
    (fuel n : ℕ) (rest : List Char) :
    bodyLines (fuel + headers.length) (n + 1) true (joinLines headers ++ rest) =
      bodyLines fuel (n + 1 + headers.length) true rest := by
  induction headers generalizing n with
  | nil => rfl
  | cons line headers ih =>
    obtain ⟨⟨hne, hline⟩, hheaders⟩ := List.forall_mem_cons.1 h
    have htext : joinLines (line :: headers) ++ rest = line ++ (crlf ++ (joinLines headers ++ rest)) := by
      simp [joinLines]
    have hstatus : ¬ ((true : Bool) = true ∧ n + 1 = 0 ∧ ¬ statusOk line = true) := fun hs => Nat.succ_ne_zero n hs.2.1
    rw [htext, List.length_cons, ← Nat.add_assoc, bodyLines, splitLine_append hline]
    dsimp only
    rw [if_neg hne, if_neg hstatus, ih hheaders (n + 1), if_pos rfl, Option.map_id_apply,
      Nat.add_assoc (n + 1) 1, Nat.add_comm 1]

namespace HttpResponse

variable {rt : Runtime} (r : HttpResponse rt)

/-- From the empty line on, both ways of taking the body give one document. -/
theorem bodyLines_body (fuel n : ℕ) (isHeader : Bool) :
    bodyLines (fuel + 2) n isHeader (crlf ++ (r.body ++ if r.trailing then crlf else [])) = some [r.document] := by
  have hempty (rest : List Char) : splitLine (crlf ++ rest) = some ([], rest) := if_pos ⟨rfl, rfl⟩
  rw [bodyLines, hempty]
  dsimp only
  rw [if_pos rfl]
  unfold document
  cases r.trailing with
  | true =>
    -- the body is a line of its own, and nothing is left behind it
    have hline : splitLine (r.body ++ crlf) = some (r.body, []) := splitLine_append r.body_unbroken []
    have hend : bodyLines fuel (n + 1 + 1) false [] = some [] := by cases fuel <;> rfl
    have hstatus : ¬ (false = true ∧ n + 1 = 0 ∧ ¬ statusOk r.body = true) := fun hs => absurd hs.1 (by decide)
    rw [if_pos rfl, if_pos rfl, if_pos (by rw [hline]; rfl), bodyLines, hline]
    dsimp only
    rw [if_neg r.body_ne_nil, if_neg hstatus, hend]
    rfl
  | false =>
    have hline : splitLine (r.body ++ []) = none := by rw [List.append_nil, splitLine_of_unbroken r.body_unbroken]
    rw [if_neg Bool.false_ne_true, if_neg Bool.false_ne_true, if_neg (by rw [hline]; decide), List.append_nil]

/-- **A response has one body.** -/
theorem bodies_text : bodies r.text = some [r.document] := by
  have hfuel : r.headers.length + 3 ≤ r.text.length := by
    have hjoin := length_le_joinLines r.headers
    simp only [text, afterStatus, crlf, List.length_append, List.length_cons, List.length_nil]
    omega
  obtain ⟨fuel, hlength⟩ := Nat.exists_eq_add_of_le hfuel
  have hstatus : ¬ (true = true ∧ (0 : ℕ) = 0 ∧ ¬ statusOk (statusLine r.minor r.reason) = true) :=
    fun hs => hs.2.2 (statusOk_statusLine r.minor_space r.reason)
  have hne : statusLine r.minor r.reason ≠ [] := by
    unfold statusLine
    simp
  have hsum : r.headers.length + 3 + fuel = fuel + 2 + r.headers.length + 1 := by omega
  rw [bodies, hlength, hsum, text, bodyLines, splitLine_append r.status_unbroken]
  dsimp only
  rw [if_neg hne, if_neg hstatus, afterStatus, bodyLines_headers r.headers_line, bodyLines_body]
  rfl

end HttpResponse

section Reading

variable {rt : Runtime} (now : ℤ) (throws : WorkPackage → Bool)

/-- **The document of a response is processed once.**  `handle_read` is the call of `processResponse` with
its value and then what it does when the response is read, and that disconnects only in `begin_connect()`, if
there is no endpoint for what is queued. -/
theorem response_processed_once (r : HttpResponse rt) :
    handleRead rt now throws (.response r.text) = (do processResponse rt now throws r.value; sendNext) ∧
      ∀ c : Client, (final (handleRead rt now throws (.response r.text)) c).ended = true →
        c.ended = true ∨ (c.txQueue ≠ [] ∧ c.endpoints = 0) := by
  have hne : r.text ≠ [] := List.append_ne_nil_of_right_ne_nil _ (List.cons_ne_nil _ _)
  have hread : handleRead rt now throws (.response r.text) = (do processResponse rt now throws r.value; sendNext) := by
    rw [handleRead_eq rt now throws hne, r.bodies_text, Option.elim_some, List.forM_cons, List.forM_nil]
    unfold processBody
    rw [r.parse_document]
    simp
  refine ⟨hread, fun c hended => ?_⟩
  have haside : Aside c (final (processResponse rt now throws r.value) c) :=
    Preserves.final inferInstance ⟨rfl, rfl, rfl⟩
  rw [hread] at hended
  cases hbody : processResponse rt now throws r.value c with
  | ok u c₁ =>
    rw [final, hbody] at haside
    rw [final, run_bind_of_ok hbody, run_sendNext] at hended
    have hqueue : c₁.txQueue = c.txQueue := congrArg Sender.waiting haside.sender
    have hendpoints : c₁.endpoints = c.endpoints := congrArg (fun t => (ofLex t).2) haside.tries
    change (if c₁.txQueue ≠ [] then c₁.begun else { c₁ with txPending := false }).ended = true at hended
    rw [← hqueue, ← hendpoints, ← haside.ended]
    unfold Client.begun at hended
    split_ifs at hended with hwaiting hleft
    · exact .inl hended
    · exact .inr ⟨hwaiting, not_not.1 hleft⟩
    · exact .inl hended
  | error crash c₁ =>
    rw [final, hbody] at haside
    rw [final, run_bind_of_error hbody] at hended
    exact .inl (haside.ended ▸ hended)

/-- A reader that drops the line feeds and takes the rest for a string. -/
def lineFeedRuntime : Runtime where
  parse text := some (.str (text.filter (· ≠ '\n')))
  valueToString _ := []
  lexicalCast _ := []
  toDouble q := q
  projectNameWithVersion := []

/-- A response with a header, and a line feed in its body. -/
def sampleResponse : HttpResponse lineFeedRuntime where
  minor := "1".toList
  reason := " OK".toList
  headers := ["Connection: close".toList]
  body := "a\nb".toList
  trailing := true
  value := .str "ab".toList
  minor_space := by decide
  status_unbroken := by decide
  headers_line := List.forall_mem_singleton.2 (by decide)
  body_ne_nil := by decide
  body_unbroken := by decide
  parse_body := by rfl
  parse_joined := by rfl

theorem sampleResponse_processed_once :
    let c : Client := { nodes := 1, solutionSubmittedMaxId := 0, endpoints := 1, txQueue := ["x".toList] }
    handleRead lineFeedRuntime 0 (fun _ => false) (.response sampleResponse.text) =
        (do processResponse lineFeedRuntime 0 (fun _ => false) (.str "ab".toList); sendNext) ∧
      (final (handleRead lineFeedRuntime 0 (fun _ => false) (.response sampleResponse.text)) c).ended = false := by
  obtain ⟨hread, hended⟩ := response_processed_once 0 (fun _ => false) sampleResponse
  refine ⟨hread, Bool.eq_false_iff.2 fun h => ?_⟩
  rcases hended _ h with hc | ⟨-, hc⟩
  · exact Bool.false_ne_true hc
  · exact Nat.one_ne_zero hc

end Reading

end Getwork
end EtcMiner
