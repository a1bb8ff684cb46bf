/-
# The lines of a session

What a session is sent arrives in pieces.  `onRecvSocketDataCompleted` adds each piece to
`m_message` and serves the complete lines (`Session.handleLines`), so that the pieces would not
matter: the lines are served in order, with the same state and the same texts sent as if they
had come at once (`Core.answerAll`).

But a message of fewer than four bytes is left for later *without* starting another read.  The
session then never reads again, nor is it closed.  So **the pieces do not matter exactly if each
of them brings what is held to four bytes at least** (`framing_iff`).

That a text looks like an HTTP request is decided on what has arrived so far, and remains so when
more arrives (`httpAt_append`).  So no piece of a text looks like one unless the text does.
-/

import EtcMiner.Api.Session
import EtcMiner.Api.Requests

namespace EtcMiner
namespace Api

open Common Eth Ethash Lib Pool Stratum

section Http

variable {text more : List Char} {r : HttpRequest}

theorem takeWhile_append_of_drop {α : Type} {p : α → Bool} {l rest : List α} {a : α} (more : List α)
    (h : l.drop (l.takeWhile p).length = a :: rest) :
    (l ++ more).takeWhile p = l.takeWhile p ∧
      (l ++ more).drop (l.takeWhile p).length = a :: (rest ++ more) := by
  induction l with
  | nil => simp at h
  | cons b l ih =>
    cases hb : p b with
    | true =>
      simp only [List.takeWhile_cons, hb, if_true, List.length_cons, List.drop_succ_cons] at h
      obtain ⟨htake, hdrop⟩ := ih h
      simp [hb, htake, hdrop]
    | false =>
      simp only [List.takeWhile_cons, hb, Bool.false_eq_true, if_false, List.length_nil, List.drop_zero] at h
      obtain ⟨rfl, rfl⟩ := List.cons.inj h
      simp [hb]

theorem httpVersion_append {version : List Char} (h : httpVersion text = some version) :
    httpVersion (text ++ more) = some version := by
  unfold httpVersion at h
  split at h
  · exact h
  · simp at h

/-- **A request is found as soon as it has arrived.** -/
theorem httpAt_append (h : httpAt text = some r) : httpAt (text ++ more) = some r := by
  unfold httpAt at h
  simp only at h
  split_ifs at h with hmethod
  split at h
  case h_2 => simp at h
  case h_1 rest hrest =>
    obtain ⟨htake, hdrop⟩ := takeWhile_append_of_drop more hrest
    split at h
    case h_2 => simp at h
    case h_1 rest' hrest' =>
      obtain ⟨htake', hdrop'⟩ := takeWhile_append_of_drop more hrest'
      obtain ⟨version, hversion, rfl⟩ := Option.map_eq_some_iff.1 h
      unfold httpAt
      simp only [htake, if_neg hmethod, hdrop, List.cons_append, htake', hdrop', httpVersion_append hversion,
        Option.map_some]

variable {bol bol' : Char → Bool} {start start' : Bool}

/-- A piece of a text that is no request is none, for a library that takes fewer lines to start. -/
theorem searchHttp_of_append (hbol : ∀ c, bol c = true → bol' c = true) (hstart : start = true → start' = true)
    (h : searchHttp bol' start' (text ++ more) = none) : searchHttp bol start text = none := by
  induction text generalizing start start' with
  | nil => rfl
  | cons c text ih =>
    rw [List.cons_append, searchHttp] at h
    rw [searchHttp]
    split at h
    case h_1 => simp at h
    case h_2 hnone =>
      have hrest := ih (hbol c) h
      cases hs : start with
      | false => simpa using hrest
      | true =>
        rw [if_pos (hstart hs)] at hnone
        have hat : httpAt (c :: text) = none := by
          cases hat : httpAt (c :: text) with
          | none => rfl
          | some r => exact absurd (hnone.symm.trans (httpAt_append hat)) (by simp)
        simpa [hat] using hrest

/-- What follows a newline is searched from its start. -/
theorem searchHttp_of_line (line : List Char) (hbol : bol '\n' = true)
    (h : searchHttp bol start (line ++ '\n' :: text) = none) : searchHttp bol true text = none := by
  induction line generalizing start with
  | nil =>
    rw [List.nil_append, searchHttp] at h
    split at h
    · simp at h
    · rwa [hbol] at h
  | cons c line ih =>
    rw [List.cons_append, searchHttp] at h
    split at h
    · simp at h
    · exact ih h

theorem searchHttp_of_lines {lines : List (List Char)} (hbol : bol '\n' = true)
    (h : searchHttp bol true ((lines.map (· ++ ['\n'])).flatten ++ text) = none) :
    searchHttp bol true text = none := by
  induction lines with
  | nil => exact h
  | cons line lines ih =>
    have hline : searchHttp bol true (line ++ '\n' :: ((lines.map (· ++ ['\n'])).flatten ++ text)) = none := by
      simpa using h
    exact ih (searchHttp_of_line line hbol hline)

end Http

section Stream

/-- What an event brings. -/
def SessionEvent.received : SessionEvent → List Char
  | .chunk rxMessage => rxMessage
  | _ => []

/-- What a session receives. -/
def streamOf (es : List SessionEvent) : List Char := (es.map SessionEvent.received).flatten

/-- A non-empty piece arrives, or a write completes. -/
def SessionEvent.IsPiece : SessionEvent → Prop
  | .chunk rxMessage => rxMessage ≠ []
  | .completed _ => True
  | .failed => False

instance : DecidablePred SessionEvent.IsPiece
  | .chunk rxMessage => inferInstanceAs (Decidable (rxMessage ≠ []))
  | .completed _ => .isTrue trivial
  | .failed => .isFalse id

/-- No line starts like an HTTP request, be it a line of the code or of the regular expression. -/
def NoHttpLine (rt : ApiRuntime) (stream : List Char) : Prop :=
  searchHttp (fun c => c = '\n' || rt.bol c) true stream = none

variable {keccak256 : Hash 8 → Hash 8} {γ τ ε : Type} (rt : ApiRuntime) (pc : PoolClient γ τ ε)
  (conf : ApiSettings) (w : World keccak256 γ τ)

/-- Another read is under way after the step, unless the process has ended. -/
def ReadsOn (s : Session keccak256 γ) (e : SessionEvent) : Prop :=
  (s.next rt pc conf w e).core.crashed = false → (s.next rt pc conf w e).wire.reading = true

/-- With a piece that arrives, four bytes are there at least. -/
def FourBytes (s : Session keccak256 γ) : SessionEvent → Prop
  | .chunk rxMessage => s.core.crashed = false → 4 ≤ (s.wire.message ++ rxMessage).length
  | _ => True

instance (s : Session keccak256 γ) : DecidablePred (FourBytes s)
  | .chunk rxMessage =>
    inferInstanceAs (Decidable (s.core.crashed = false → 4 ≤ (s.wire.message ++ rxMessage).length))
  | .completed _ => .isTrue trivial
  | .failed => .isTrue trivial

/-- The session reads on after each step, and serves the lines in order, as if they had come at
once. -/
structure Framed (s : Session keccak256 γ) (es : List SessionEvent) (lines : List (List Char)) : Prop where
  reads : Along (Session.next rt pc conf w) (ReadsOn rt pc conf w) s es
  core : (run (Session.next rt pc conf w) s es).core = (s.core.answerAll rt pc conf w lines).1
  answers : (run (Session.next rt pc conf w) s es).wire.answers = (s.core.answerAll rt pc conf w lines).2
  oneChunk_core : (run (Session.next rt pc conf w) s es).core = (s.next rt pc conf w (.chunk (streamOf es))).core
  oneChunk_answers : (run (Session.next rt pc conf w) s es).wire.answers =
    (s.next rt pc conf w (.chunk (streamOf es))).wire.answers

/-- What the events `es` do, for the lines they complete. -/
structure Pieces (s : Session keccak256 γ) (es : List SessionEvent) (lines : List (List Char)) : Prop where
  reads_iff : Along (Session.next rt pc conf w) (ReadsOn rt pc conf w) s es ↔
    Along (Session.next rt pc conf w) FourBytes s es
  served : Along (Session.next rt pc conf w) FourBytes s es →
    (run (Session.next rt pc conf w) s es).core = (s.core.answerAll rt pc conf w lines).1 ∧
    (run (Session.next rt pc conf w) s es).wire.answers =
      s.wire.answers ++ (s.core.answerAll rt pc conf w lines).2

/-- The session waits for `stream`. -/
structure Listening (s : Session keccak256 γ) (stream : List Char) : Prop where
  crashed : s.core.crashed = false
  isOpen : s.wire.isOpen = true
  reading : s.wire.reading = true
  closing : ∀ disconnect ∈ s.wire.closing, disconnect = false
  message : '\n' ∉ s.wire.message
  noHttp : NoHttpLine rt (s.wire.message ++ stream)

variable {rt pc conf w} {s : Session keccak256 γ} {rx stream rest : List Char} {lines : List (List Char)}

theorem next_of_crashed (h : s.core.crashed = true) (e : SessionEvent) : s.next rt pc conf w e = s := by
  cases e with
  | chunk rx => exact if_pos (.inl h)
  | completed i => exact if_pos (.inl h)
  | failed => exact if_pos h

theorem Listening.next_chunk (h : Listening rt s stream) (rx : List Char) :
    s.next rt pc conf w (.chunk rx) = s.onRecvSocketDataCompleted rt pc conf w rx :=
  if_neg (by simp [h.crashed, h.reading])

/-- A piece that is too short is the last one. -/
theorem Listening.not_readsOn (h : Listening rt s stream) (hrx : rx ≠ [])
    (hshort : (s.wire.message ++ rx).length < 4) : ¬ ReadsOn rt pc conf w s (.chunk rx) := by
  have hnext : s.next rt pc conf w (.chunk rx) =
      { s with wire := { s.wire with message := s.wire.message ++ rx, reading := false } } := by
    rw [h.next_chunk, Session.onRecvSocketDataCompleted, if_neg hrx]
    exact if_pos hshort
  intro hreads
  rw [ReadsOn, hnext] at hreads
  exact absurd (hreads h.crashed) Bool.false_ne_true

/-- **A piece that is long enough**: the lines that are complete are served. -/
theorem Listening.chunk (pc : PoolClient γ τ ε) (conf : ApiSettings) (w : World keccak256 γ τ)
    (h : Listening rt s (rx ++ stream)) (hrx : rx ≠ [])
    (hlong : 4 ≤ (s.wire.message ++ rx).length) (hcut : IsCut '\n' (s.wire.message ++ rx) lines rest) :
    let s' := s.next rt pc conf w (.chunk rx)
    s'.core = (s.core.answerAll rt pc conf w lines).1 ∧
      s'.wire.answers = s.wire.answers ++ (s.core.answerAll rt pc conf w lines).2 ∧
      s'.wire.message = rest ∧ (s'.core.crashed = false → Listening rt s' stream) := by
  have hwhole : NoHttpLine rt ((s.wire.message ++ rx) ++ stream) := by
    rw [List.append_assoc]
    exact h.noHttp
  have hnone : searchHttp rt.bol true (s.wire.message ++ rx) = none :=
    searchHttp_of_append (fun c hc => by simp [hc]) id hwhole
  have hnext : s.next rt pc conf w (.chunk rx) =
      Session.handleLines rt pc conf w
        { s with wire := { s.wire with message := s.wire.message ++ rx, reading := false } }
        (s.wire.message ++ rx) := by
    rw [h.next_chunk, Session.onRecvSocketDataCompleted, if_neg hrx]
    simp only [Nat.not_lt.2 hlong, if_false, hnone]
  intro s'
  have hs' : s' = _ := hnext.trans (handleLines_eq rt pc conf w hcut)
  dsimp only at hs'
  rw [sendAll_of_isOpen (by exact h.isOpen)] at hs'
  rw [hs']
  refine ⟨rfl, rfl, rfl, fun hcrashed => ?_⟩
  have hreading : (s.wire.isOpen && !(s.core.answerAll rt pc conf w lines).1.crashed) = true := by
    have hcrashed : (s.core.answerAll rt pc conf w lines).1.crashed = false := hcrashed
    rw [h.isOpen, hcrashed]
    rfl
  refine ⟨hcrashed, h.isOpen, hreading, fun disconnect hmem => ?_, hcut.rest, ?_⟩
  · cases List.mem_append.1 hmem with
    | inl hold => exact h.closing disconnect hold
    | inr hnew => exact List.eq_of_mem_replicate hnew
  · -- the rest starts a line
    rw [hcut.eq, List.append_assoc] at hwhole
    exact searchHttp_of_lines (by simp) hwhole

/-- A write that completes does not concern the lines. -/
theorem Listening.completed (pc : PoolClient γ τ ε) (conf : ApiSettings) (w : World keccak256 γ τ)
    (h : Listening rt s stream) (i : ℕ) :
    let s' := s.next rt pc conf w (.completed i)
    s'.core = s.core ∧ s'.wire.answers = s.wire.answers ∧ s'.wire.message = s.wire.message ∧
      Listening rt s' stream := by
  intro s'
  have hs' : s' = if _ then s else { s with wire := s.wire.onSendSocketDataCompleted i } := rfl
  split_ifs at hs' with hnone
  · rw [hs']
    exact ⟨rfl, rfl, rfl, h⟩
  · have hflag : s.wire.closing.getD i false = false := by
      rw [List.getD_eq_getElem?_getD]
      cases hget : s.wire.closing[i]? with
      | none => rfl
      | some disconnect => exact h.closing disconnect (List.mem_of_getElem? hget)
    have hwire : s.wire.onSendSocketDataCompleted i = { s.wire with
        sendBuffer := s.wire.sendBuffer.complete i
        closing := s.wire.closing.eraseIdx i } := by
      simp only [Wire.onSendSocketDataCompleted, hflag, Bool.false_eq_true, if_false]
    rw [hs', hwire]
    exact ⟨rfl, rfl, rfl, { h with closing := fun disconnect hmem => h.closing disconnect (List.mem_of_mem_eraseIdx hmem) }⟩

/-- The events after the first one are served where that one leaves the session. -/
theorem Pieces.cons {e : SessionEvent} {es : List SessionEvent} {lines' : List (List Char)}
    (hreads : ReadsOn rt pc conf w s e) (hfour : FourBytes s e)
    (hcore : (s.next rt pc conf w e).core = (s.core.answerAll rt pc conf w lines).1)
    (hanswers : (s.next rt pc conf w e).wire.answers = s.wire.answers ++ (s.core.answerAll rt pc conf w lines).2)
    (h : Pieces rt pc conf w (s.next rt pc conf w e) es lines') :
    Pieces rt pc conf w s (e :: es) (lines ++ lines') := by
  refine ⟨and_congr (iff_of_true hreads hfour) h.reads_iff, fun hall => ?_⟩
  obtain ⟨hcore', hanswers'⟩ := h.served hall.2
  rw [answerAll_append]
  rw [hcore] at hcore' hanswers'
  rw [hanswers, List.append_assoc] at hanswers'
  exact ⟨hcore', hanswers'⟩

/-- An event that serves no line. -/
theorem Pieces.skip {e : SessionEvent} {es : List SessionEvent} (hreads : ReadsOn rt pc conf w s e)
    (hfour : FourBytes s e) (hcore : (s.next rt pc conf w e).core = s.core)
    (hanswers : (s.next rt pc conf w e).wire.answers = s.wire.answers)
    (h : Pieces rt pc conf w (s.next rt pc conf w e) es lines) : Pieces rt pc conf w s (e :: es) lines := by
  have hcore' : (s.next rt pc conf w e).core = (s.core.answerAll rt pc conf w []).1 := hcore
  have hanswers' : (s.next rt pc conf w e).wire.answers =
      s.wire.answers ++ (s.core.answerAll rt pc conf w []).2 := hanswers.trans (List.append_nil _).symm
  exact Pieces.cons hreads hfour hcore' hanswers' h

/-- Nothing happens after the process has ended. -/
theorem pieces_of_crashed (h : s.core.crashed = true) (es : List SessionEvent) (lines : List (List Char)) :
    Pieces rt pc conf w s es lines := by
  induction es with
  | nil =>
    refine ⟨Iff.rfl, fun _ => ?_⟩
    rw [answerAll_of_crashed rt pc conf w h]
    exact ⟨rfl, (List.append_nil _).symm⟩
  | cons e es ih =>
    have hnext : s.next rt pc conf w e = s := next_of_crashed h e
    have hreads : ReadsOn rt pc conf w s e := by simp [ReadsOn, hnext, h]
    have hfour : FourBytes s e := by cases e <;> simp [FourBytes, h]
    refine Pieces.skip hreads hfour ?_ ?_ ?_ <;> rw [hnext]
    exact ih

/-- **The session reads on as long as each piece is long enough, and serves the lines then.** -/
theorem Listening.pieces {es : List SessionEvent} (h : Listening rt s (streamOf es)) (hes : ∀ e ∈ es, e.IsPiece)
    (hcut : IsCut '\n' (s.wire.message ++ streamOf es) lines []) : Pieces rt pc conf w s es lines := by
  induction es generalizing s lines with
  | nil =>
    obtain ⟨rfl, -⟩ := (isCut_of_not_mem (by simpa [streamOf] using h.message)).unique hcut
    exact ⟨Iff.rfl, fun _ => ⟨rfl, (List.append_nil _).symm⟩⟩
  | cons e es ih =>
    obtain ⟨hpiece, hmore⟩ := List.forall_mem_cons.1 hes
    cases e with
    | chunk rx =>
      by_cases hlong : 4 ≤ (s.wire.message ++ rx).length
      · obtain ⟨lines₁, rest, hcut₁⟩ := exists_isCut '\n' (s.wire.message ++ rx)
        obtain ⟨lines₂, rest₂, hcut₂⟩ := exists_isCut '\n' (rest ++ streamOf es)
        obtain ⟨rfl, rfl⟩ : lines = lines₁ ++ lines₂ ∧ [] = rest₂ := by
          refine hcut.unique ?_
          show IsCut '\n' (s.wire.message ++ (rx ++ streamOf es)) _ _
          rw [← List.append_assoc]
          exact hcut₁.append hcut₂
        obtain ⟨hcore, hanswers, hmessage, hlistening⟩ := Listening.chunk pc conf w h hpiece hlong hcut₁
        refine Pieces.cons (fun hrunning => (hlistening hrunning).reading) (fun _ => hlong) hcore hanswers ?_
        cases hcrashed : (s.next rt pc conf w (.chunk rx)).core.crashed with
        | true => exact pieces_of_crashed hcrashed es lines₂
        | false => exact ih (hlistening hcrashed) hmore (by rw [← hmessage] at hcut₂; exact hcut₂)
      · have hnot : ¬ Along (Session.next rt pc conf w) FourBytes s (.chunk rx :: es) :=
          fun hfour => hlong (hfour.1 h.crashed)
        exact ⟨iff_of_false (fun hreads => h.not_readsOn hpiece (Nat.lt_of_not_le hlong) hreads.1) hnot,
          fun hfour => absurd hfour hnot⟩
    | completed i =>
      obtain ⟨hcore, hanswers, hmessage, hlistening⟩ := Listening.completed pc conf w h i
      refine Pieces.skip (fun _ => hlistening.reading) trivial hcore hanswers (ih hlistening hmore ?_)
      rw [hmessage]
      exact hcut
    | failed => exact hpiece.elim

/-- Something that arrives in pieces that are long enough has four bytes. -/
theorem Listening.four_le_length {es : List SessionEvent} (h : Listening rt s (streamOf es))
    (hes : ∀ e ∈ es, e.IsPiece) (hne : streamOf es ≠ [])
    (hfour : Along (Session.next rt pc conf w) FourBytes s es) : 4 ≤ (s.wire.message ++ streamOf es).length := by
  induction es generalizing s with
  | nil => exact absurd rfl hne
  | cons e es ih =>
    cases e with
    | chunk rx =>
      have hfirst : 4 ≤ (s.wire.message ++ rx).length := hfour.1 h.crashed
      show 4 ≤ (s.wire.message ++ (rx ++ streamOf es)).length
      rw [← List.append_assoc, List.length_append]
      omega
    | completed i =>
      obtain ⟨-, -, hmessage, hlistening⟩ := Listening.completed pc conf w h i
      rw [← hmessage]
      exact ih hlistening (List.forall_mem_cons.1 hes).2 hne hfour.2
    | failed => exact (List.forall_mem_cons.1 hes).1.elim

/-- All at once is one way to cut. -/
theorem Listening.oneChunk (h : Listening rt s stream) (hlong : stream = [] ∨ 4 ≤ (s.wire.message ++ stream).length)
    (hcut : IsCut '\n' (s.wire.message ++ stream) lines []) :
    (s.next rt pc conf w (.chunk stream)).core = (s.core.answerAll rt pc conf w lines).1 ∧
      (s.next rt pc conf w (.chunk stream)).wire.answers =
        s.wire.answers ++ (s.core.answerAll rt pc conf w lines).2 := by
  by_cases hempty : stream = []
  · subst hempty
    have hnext : s.next rt pc conf w (.chunk []) = { s with wire := s.wire.disconnect } := h.next_chunk []
    obtain ⟨rfl, -⟩ := (isCut_of_not_mem (by simpa using h.message)).unique hcut
    rw [hnext]
    exact ⟨rfl, (List.append_nil _).symm⟩
  · have hlistening : Listening rt s (stream ++ []) := by rwa [List.append_nil]
    obtain ⟨hcore, hanswers, -⟩ := hlistening.chunk pc conf w hempty (hlong.resolve_left hempty) hcut
    exact ⟨hcore, hanswers⟩

variable (rt pc conf w)

/-- **The pieces do not matter**, exactly if each of them brings what is held to four bytes. -/
theorem framing_iff (authenticated : Bool) (station : Station keccak256 γ) (es : List SessionEvent)
    (lines : List (List Char)) (hes : ∀ e ∈ es, e.IsPiece) (hlines : IsCut '\n' (streamOf es) lines [])
    (hhttp : NoHttpLine rt (streamOf es)) :
    Framed rt pc conf w ⟨⟨authenticated, station, 0, false⟩, {}⟩ es lines ↔
      Along (Session.next rt pc conf w) FourBytes ⟨⟨authenticated, station, 0, false⟩, {}⟩ es := by
  have hlistening : Listening rt (⟨⟨authenticated, station, 0, false⟩, {}⟩ : Session keccak256 γ) (streamOf es) :=
    ⟨rfl, rfl, rfl, nofun, List.not_mem_nil, hhttp⟩
  have hpieces : Pieces rt pc conf w _ es lines := hlistening.pieces hes hlines
  refine ⟨fun h => hpieces.reads_iff.1 h.reads, fun hfour => ?_⟩
  obtain ⟨hcore, hanswers⟩ := hpieces.served hfour
  have hlong : streamOf es = [] ∨ 4 ≤ (streamOf es).length :=
    or_iff_not_imp_left.2 fun hne => hlistening.four_le_length hes hne hfour
  obtain ⟨hcore₁, hanswers₁⟩ := hlistening.oneChunk hlong hlines
  exact ⟨hpieces.reads_iff.2 hfour, hcore, hanswers, hcore.trans hcore₁.symm, hanswers.trans hanswers₁.symm⟩

end Stream

section Examples

/-- A world in which nothing happens. -/
def stillWorld : World countingKeccak GetworkStatus Unit := ⟨fun _ => noEnv, fun _ s => s⟩

/-- Two lines in three pieces. -/
theorem framing_iff_threeChunks :
    Framed echoApi getworkClient ⟨false, []⟩ stillWorld ⟨⟨true, minerless 1, 0, false⟩, {}⟩
      [.chunk "miner_ping".toList, .chunk "\nminer_".toList, .completed 0, .chunk "ping\n".toList]
      ["miner_ping".toList, "miner_ping".toList] :=
  (framing_iff echoApi getworkClient ⟨false, []⟩ stillWorld true (minerless 1) _ _ (by decide)
    ⟨by decide, by decide, by decide⟩ (by unfold NoHttpLine; decide +kernel)).2 (by decide +kernel)

/-- A client that sends one byte first is not read any more. -/
theorem firstByte_not_framed :
    ¬ Framed echoApi getworkClient ⟨false, []⟩ stillWorld ⟨⟨true, minerless 1, 0, false⟩, {}⟩
      [.chunk "m".toList, .chunk "iner_ping\n".toList] ["miner_ping".toList] := by
  intro h
  have hreading := h.reads.1 (by decide +kernel)
  revert hreading
  decide +kernel

end Examples

end Api
end EtcMiner
