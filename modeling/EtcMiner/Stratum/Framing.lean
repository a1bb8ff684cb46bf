/-
# The lines of a stratum connection

`EthStratumClient::onRecvSocketDataCompleted` (`libpool/stratum/EthStratumClient.cpp`) with its
buffer as the source has it: `m_message` grows by what was read, `find("\n")` and `erase` take
the lines off its front, and each line that is not blank goes to the JSON parser, trimmed.
`connect_handler` clears the buffer.

A run is one connection: the client reads chunks, and does other things in between that leave
`m_message` alone, which no other function mentions.  However the stream is divided into
chunks, and whether the handling of a message returns or throws a `std::exception`, the texts
that are parsed are the lines of the stream, in order and once each (`lines_parsed_once`).
`process` stands for `processResponse`; with that in its place this is the receive handler of
`EtcMiner.Stratum.Receive` (`receiveChunk_tracks`).
-/

import EtcMiner.Lib.Lines
import EtcMiner.Lib.Run
import EtcMiner.Stratum.Receive

namespace EtcMiner
namespace Stratum

open Common Eth Lib

/-- The client, and the texts it has given to the parser. -/
structure Reception where
  client : Client
  parsed : List (List Char) := []

/-- A function of the receive handler. -/
abbrev ReceptionM := EStateM Fault Reception

/-- A function of the client. -/
def onReception (x : ClientM Unit) : ReceptionM Unit := fun r =>
  match x r.client with
  | .ok _ c => .ok () { r with client := c }
  | .error e c => .error e { r with client := c }

section Receive

variable (rt : Runtime) (process : ℤ → Json → ClientM Unit) (now : ℤ)

/-- What the loop does with `m_message.substr(0, offset)`. -/
def handleLine (line : List Char) : ReceptionM Unit := do
  if 0 < line.length then
    if trim line ≠ [] then
      modify fun r => { r with parsed := r.parsed ++ [trim line] }
      match rt.parse (trim line) with
      | some jMsg =>
        tryCatch (onReception (process now jMsg)) fun
          | .stdException => pure ()
          | e => throw e
      | none => pure ()

/-- `onRecvSocketDataCompleted`.  No function that the loop calls looks at `m_message`, so the
client gets what is left of it at the end. -/
def receiveChunk (rxMessage : List Char) : ReceptionM Unit := do
  modify fun r => { r with
    client := { r.client with message := r.client.message ++ rxMessage, newjobprocessed := false } }
  let rest ← eachLine '\n' (handleLine rt process now) (← get).client.message
  modify fun r => { r with client := { r.client with message := rest } }
  let c := (← get).client
  if c.newjobprocessed then onReception (emit (.onWorkReceived c.current))

end Receive

/-- The texts of the lines that are not blank. -/
def texts (lines : List (List Char)) : List (List Char) := (lines.map trim).filter (· ≠ [])

theorem texts_append (lines lines' : List (List Char)) : texts (lines ++ lines') = texts lines ++ texts lines' := by
  rw [texts, List.map_append, List.filter_append]
  rfl

theorem texts_cons (line : List Char) (lines : List (List Char)) :
    texts (line :: lines) = texts [line] ++ texts lines := texts_append [line] lines

section Spec

variable {rt : Runtime} {process : ℤ → Json → ClientM Unit} {now : ℤ} {r : Reception}

theorem ends_onReception {x : ClientM Unit} {Q : Unit → Reception → Prop} {E : Fault → Reception → Prop} :
    Ends (onReception x) r Q E ↔
      Ends x r.client (fun u c => Q u { r with client := c }) fun e c => E e { r with client := c } := by
  unfold Ends
  simp only [onReception]
  cases x r.client <;> exact Iff.rfl

/-- A line goes to the parser if it is not blank, whatever comes of it. -/
theorem handleLine_parsed (line : List Char) :
    Ends (handleLine rt process now line) r (fun _ r' => r'.parsed = r.parsed ++ texts [line])
      fun _ _ => True := by
  have hblank (h : trim line = []) : texts [line] = [] := by simp [texts, h]
  unfold handleLine
  split_ifs with hlen htrim
  · have htext : texts [line] = [trim line] := by simp [texts, htrim]
    rw [ends_bind, ends_modify, htext]
    cases rt.parse (trim line) with
    | none => exact rfl
    | some jMsg =>
      dsimp only
      rw [ends_tryCatch, ends_onReception]
      unfold Ends
      split
      · rfl
      · next e c he =>
        cases e with
        | stdException => rfl
        | _ => trivial
  · rw [hblank (not_not.1 htrim)]
    simp
  · have hnil : line = [] := List.eq_nil_of_length_eq_zero (by omega)
    rw [hblank (by rw [hnil]; rfl)]
    simp

theorem forM_handleLine_parsed (lines : List (List Char)) (r : Reception) :
    Ends (lines.forM (handleLine rt process now)) r (fun _ r' => r'.parsed = r.parsed ++ texts lines)
      fun _ _ => True := by
  induction lines generalizing r with
  | nil => exact (List.append_nil _).symm
  | cons line lines ih =>
    change Ends (handleLine rt process now line >>= fun _ => lines.forM (handleLine rt process now)) r _ _
    rw [ends_bind]
    refine (handleLine_parsed line).imp (fun _ r' hr' => ?_) fun _ _ h => h
    refine (ih r').imp (fun _ r'' hr'' => ?_) fun _ _ h => h
    rw [hr'', hr', texts_cons line lines, List.append_assoc]

/-- **A chunk**: its lines go to the parser, the first one together with what was left of the
chunks before, and the rest is kept. -/
theorem receiveChunk_spec {rxMessage rest : List Char} {lines : List (List Char)}
    (hcut : IsCut '\n' (r.client.message ++ rxMessage) lines rest) :
    Ends (receiveChunk rt process now rxMessage) r
      (fun _ r' => r'.parsed = r.parsed ++ texts lines ∧ r'.client.message = rest) fun _ _ => True := by
  unfold receiveChunk
  rw [ends_bind, ends_modify, ends_bind, ends_get, ends_bind, eachLine_eq hcut, ends_bind]
  refine (forM_handleLine_parsed lines _).imp (fun _ r' hr' => ?_) fun _ _ h => h
  rw [ends_pure, ends_bind, ends_modify, ends_bind, ends_get]
  dsimp only
  split_ifs
  · exact ⟨hr', rfl⟩
  · exact ⟨hr', rfl⟩

end Spec

/-- What happens on a connection: a chunk is read, or something that leaves the buffer alone. -/
inductive ReceptionEvent where
  | chunk (now : ℤ) (rxMessage : List Char)
  | other (f : Client → Client) (h : ∀ c, (f c).message = c.message)

/-- What is read. -/
def ReceptionEvent.rxMessage : ReceptionEvent → List Char
  | .chunk _ rxMessage => rxMessage
  | .other _ _ => []

/-- A run, and whether an exception that is no `std::exception` has ended it. -/
structure ReceptionRun where
  reception : Reception
  crashed : Bool := false

/-- One step of a run. -/
def ReceptionRun.next (rt : Runtime) (process : ℤ → Json → ClientM Unit) (s : ReceptionRun) :
    ReceptionEvent → ReceptionRun
  | .chunk now rxMessage =>
    if s.crashed then s
    else ⟨final (receiveChunk rt process now rxMessage) s.reception,
      (thrown (receiveChunk rt process now rxMessage) s.reception).isSome⟩
  | .other f _ => { s with reception := { s.reception with client := f s.reception.client } }

/-- The lines of `stream` have been parsed, and its rest is in the buffer. -/
def ReceptionRun.Read (s : ReceptionRun) (stream : List Char) : Prop :=
  s.crashed = false → ∃ lines rest, IsCut '\n' stream lines rest ∧
    s.reception.parsed = texts lines ∧ s.reception.client.message = rest

theorem ReceptionRun.Read.next {rt : Runtime} {process : ℤ → Json → ClientM Unit} {s : ReceptionRun}
    {stream : List Char} (hs : s.Read stream) (e : ReceptionEvent) :
    (s.next rt process e).Read (stream ++ e.rxMessage) := by
  intro hup
  cases e with
  | other f h =>
    obtain ⟨lines, rest, hcut, hparsed, hmessage⟩ := hs hup
    have hstream : IsCut '\n' (stream ++ []) lines rest := (List.append_nil stream).symm ▸ hcut
    exact ⟨lines, rest, hstream, hparsed, (h _).trans hmessage⟩
  | chunk now rxMessage =>
    unfold ReceptionRun.next at hup ⊢
    dsimp only at hup ⊢
    split_ifs at hup ⊢ with hcrashed
    · exact absurd hup (by simp [hcrashed])
    · obtain ⟨lines, rest, hcut, hparsed, hmessage⟩ := hs (eq_false_of_ne_true hcrashed)
      obtain ⟨lines', rest', hcut'⟩ := exists_isCut '\n' (rest ++ rxMessage)
      have hspec : Ends (receiveChunk rt process now rxMessage) s.reception
          (fun _ r' => r'.parsed = s.reception.parsed ++ texts lines' ∧ r'.client.message = rest')
          fun _ _ => True := receiveChunk_spec (hmessage.symm ▸ hcut')
      unfold Ends at hspec
      unfold thrown at hup
      unfold final
      split at hspec
      · next u r' hrun =>
        refine ⟨lines ++ lines', rest', hcut.append hcut', ?_, hspec.2⟩
        rw [hspec.1, hparsed, texts_append]
      · next e r' hrun =>
        rw [hrun] at hup
        exact (nomatch hup)

/-- **Stratum framing does not depend on the chunks.**  From a fresh connection, as long as the
run goes on, the texts given to the parser are the lines of what was received, trimmed and
without the blank ones, and the buffer holds what follows the last newline. -/
theorem lines_parsed_once (rt : Runtime) (process : ℤ → Json → ClientM Unit) (c : Client)
    (hc : c.message = []) (es : List ReceptionEvent)
    (hup : (run (ReceptionRun.next rt process) ⟨⟨c, []⟩, false⟩ es).crashed = false)
    (lines : List (List Char)) (rest : List Char)
    (hcut : IsCut '\n' (es.map ReceptionEvent.rxMessage).flatten lines rest) :
    let r := (run (ReceptionRun.next rt process) ⟨⟨c, []⟩, false⟩ es).reception
    r.parsed = (lines.map trim).filter (· ≠ []) ∧ r.client.message = rest := by
  have hinit : ReceptionRun.Read ⟨⟨c, []⟩, false⟩ [] := fun _ => ⟨[], [], isCut_nil _, rfl, hc⟩
  have hread : ReceptionRun.Read _ (es.map ReceptionEvent.rxMessage).flatten :=
    @Along.run_log _ _ (ReceptionRun.next rt process) (fun _ _ => True) _
      (fun (s : ReceptionRun) done => s.Read (done.map ReceptionEvent.rxMessage).flatten) [] hinit
      (fun s done e h _ => by simpa using h.next e) es (along_of_forall (fun _ _ => trivial) es)
  obtain ⟨lines', rest', hcut', hparsed, hmessage⟩ := hread hup
  obtain ⟨rfl, rfl⟩ := hcut.unique hcut'
  exact ⟨hparsed, hmessage⟩

/-- Every text is a message. -/
def echoRuntime : Runtime where
  parse line := some (.str line)
  valueToString _ := []
  lexicalCast _ := []
  toDouble q := q
  projectNameWithVersion := []

/-- A connection on which a line is cut in two and a blank one is sent. -/
def cutChunks : List ReceptionEvent :=
  [.chunk 0 "one\ntw".toList, .other (fun c => { c with authpending := true }) (fun _ => rfl),
    .chunk 1 "o\r\n\n".toList, .chunk 2 " \nthr".toList]

/-- No message gets through, and all of them are parsed. -/
theorem lines_parsed_once_cutChunks :
    let refuse : ℤ → Json → ClientM Unit := fun _ _ => throw .stdException
    let c : Client := { conn := { stratumMode := STRATUM }, pleas := { older := 0 } }
    let r := (run (ReceptionRun.next echoRuntime refuse) ⟨⟨c, []⟩, false⟩ cutChunks).reception
    r.parsed = ["one".toList, "two".toList] ∧ r.client.message = "thr".toList := by
  intro refuse c
  have hcut : IsCut '\n' (cutChunks.map ReceptionEvent.rxMessage).flatten
      ["one".toList, "two\r".toList, [], " ".toList] "thr".toList := ⟨rfl, by decide, by decide⟩
  exact lines_parsed_once echoRuntime refuse c rfl cutChunks (by decide +kernel) _ _ hcut

section Tracks

/-- `x` does to the client what `y` does. -/
def Tracks {α : Type} (x : ReceptionM α) (y : ClientM α) : Prop :=
  ∀ r, Ends x r (fun a r' => y r.client = .ok a r'.client) fun e r' => y r.client = .error e r'.client

variable {α β : Type} {x : ReceptionM α} {y : ClientM α}

theorem Tracks.bind {f : α → ReceptionM β} {g : α → ClientM β} (hx : Tracks x y)
    (hf : ∀ a, Tracks (f a) (g a)) : Tracks (x >>= f) (y >>= g) := by
  intro r
  rw [ends_bind]
  refine (hx r).imp (fun a r' hr' => ?_) fun e r' hr' => run_bind_of_error hr' g
  rw [run_bind_of_ok hr' g]
  exact hf a r'

theorem tracks_pure (a : α) : Tracks (pure a) (pure a) := fun _ => rfl

theorem tracks_onReception (x : ClientM Unit) : Tracks (onReception x) x := by
  intro r
  rw [ends_onReception]
  unfold Ends
  split <;> assumption

theorem tracks_modify (f : Client → Client) :
    Tracks (modify fun r => { r with client := f r.client }) (modify f) := fun _ => rfl

variable {rt : Runtime} {now : ℤ}

theorem handleLine_tracks (line : List Char) :
    Tracks (handleLine rt (processResponse rt) now line) (match messageOf rt line with
      | some jMsg => tryProcessResponse rt now jMsg
      | none => pure ()) := by
  have hempty (h : ¬ 0 < line.length) : trim line = [] := by
    rw [List.eq_nil_of_length_eq_zero (by omega : line.length = 0)]
    rfl
  by_cases htrim : trim line = []
  · have hmessage : messageOf rt line = none := if_pos htrim
    have hline : handleLine rt (processResponse rt) now line = pure () := by
      unfold handleLine
      simp [htrim]
    rw [hmessage, hline]
    exact tracks_pure ()
  · have hlen : 0 < line.length := by_contra fun h => htrim (hempty h)
    have hmessage : messageOf rt line = rt.parse (trim line) := if_neg htrim
    intro r
    rw [hmessage, handleLine, if_pos hlen, if_pos htrim, ends_bind, ends_modify]
    cases rt.parse (trim line) with
    | none => rfl
    | some jMsg =>
      dsimp only
      rw [ends_tryCatch, ends_onReception]
      unfold tryProcessResponse Ends
      split
      · next u c hrun => rw [run_tryCatch_of_ok hrun]
      · next e c hrun =>
        rw [run_tryCatch_of_error hrun]
        cases e <;> rfl

theorem forM_handleLine_tracks (lines : List (List Char)) :
    Tracks (lines.forM (handleLine rt (processResponse rt) now)) (processLines rt now lines) := by
  induction lines with
  | nil => exact tracks_pure ()
  | cons line lines ih =>
    have hcons : processLines rt now (line :: lines) = (match messageOf rt line with
        | some jMsg => tryProcessResponse rt now jMsg
        | none => pure ()) >>= fun _ => processLines rt now lines := by
      rw [processLines]
      cases messageOf rt line <;> rfl
    rw [hcons]
    exact (handleLine_tracks line).bind fun _ => ih

/-- The lines that `takeLines` finds. -/
theorem isCut_takeLines (text : List Char) :
    IsCut '\n' text (takeLines text).1 (takeLines text).2 := by
  induction text with
  | nil => exact isCut_nil _
  | cons a text ih =>
    by_cases ha : a = '\n'
    · subst ha
      exact ih.cons List.not_mem_nil
    · obtain ⟨heq, hlines, hrest⟩ := ih
      cases hcut : takeLines text with
      | mk lines rest =>
        rw [hcut] at heq hlines hrest
        cases lines with
        | nil =>
          have htake : takeLines (a :: text) = ([], a :: rest) := by
            unfold takeLines
            rw [hcut]
            split <;> simp_all
          rw [htake]
          refine ⟨by rw [heq]; rfl, nofun, ?_⟩
          simpa [Ne.symm ha] using hrest
        | cons line lines =>
          have htake : takeLines (a :: text) = ((a :: line) :: lines, rest) := by
            unfold takeLines
            rw [hcut]
            split <;> simp_all
          obtain ⟨hline, hmore⟩ := List.forall_mem_cons.1 hlines
          rw [htake]
          refine ⟨by rw [heq]; rfl, List.forall_mem_cons.2 ⟨?_, hmore⟩, hrest⟩
          simpa [Ne.symm ha] using hline

/-- **The receive handler is this one** with `processResponse` for the messages. -/
theorem receiveChunk_tracks (rxMessage : List Char) :
    Tracks (receiveChunk rt (processResponse rt) now rxMessage) (onRecvSocketDataCompleted rt now rxMessage) := by
  intro r
  set c : Client := { r.client with message := r.client.message ++ rxMessage, newjobprocessed := false } with hc
  have hclient : onRecvSocketDataCompleted rt now rxMessage r.client =
      (processLines rt now (takeLines c.message).1 >>= fun _ => do
        modify fun c' => { c' with message := (takeLines c.message).2 }
        let c' ← get
        if c'.newjobprocessed then emit (.onWorkReceived c'.current)) c := by
    unfold onRecvSocketDataCompleted receive
    simp only [bind_assoc, run_modify_bind, run_get_bind]
    refine congrFun (congrArg _ (funext fun _ => ?_)) c
    refine congrArg _ (funext fun _ => congrArg _ (funext fun c' => ?_))
    rw [pure_bind]
    split_ifs <;> rfl
  have htail : Tracks (do
      modify fun r' => { r' with client := { r'.client with message := (takeLines c.message).2 } }
      let c' := (← get).client
      if c'.newjobprocessed then onReception (emit (.onWorkReceived c'.current)))
      (do
        modify fun c' => { c' with message := (takeLines c.message).2 }
        let c' ← get
        if c'.newjobprocessed then emit (.onWorkReceived c'.current)) := by
    refine (tracks_modify fun c' => { c' with message := (takeLines c.message).2 }).bind fun _ r' => ?_
    rw [ends_bind, ends_get, run_get_bind]
    dsimp only
    split_ifs
    · exact tracks_onReception _ r'
    · exact tracks_pure () r'
  rw [hclient]
  unfold receiveChunk
  rw [ends_bind, ends_modify, ends_bind, ends_get, eachLine_eq (isCut_takeLines _), bind_assoc]
  exact ((forM_handleLine_tracks _).bind fun _ => htail) { r with client := c }

end Tracks

end Stratum
end EtcMiner
