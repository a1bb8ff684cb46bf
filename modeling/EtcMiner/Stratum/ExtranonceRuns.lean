/-
# The extranonce of a session

A pool sends extranonces in its reply to `mining.subscribe`, in `mining.set_extranonce` and in
`mining.set`.  `processExtranonce` stores the length of the text, fills it up to 16 characters and
reads it with `stoull`.

`news` is what a message says about the extranonce: whether it starts a session, and the text it
carries.  `Tracked` follows a client together with the last text that was a pure hex string of at
most 16 digits.  As long as all texts are such strings and no message that carries one throws, the
fields of the session describe the last one (`described_of_fit`).  For other texts the size is stored
before `stoull` throws (`processExtranonce_run_none`), or what `stoull` reads of them is stored.
-/

import EtcMiner.Stratum.Extranonce
import EtcMiner.Stratum.Framing
import EtcMiner.Stratum.Transmission

namespace EtcMiner
namespace Stratum

open Common Eth Lib

-- the handlers are long sequences
set_option synthInstance.maxSize 100000

/-- A pure hex string of at most 16 digits. -/
def isPureHex (text : List Char) : Bool := text ≠ [] && text.all isHexDigit && text.length ≤ 16

/-- What a message says about the extranonce; the empty text stands for none. -/
structure News where
  starts : Bool := false
  text : List Char := []

/-- The last extranonce after the message, the empty text if there was none in the session. -/
def News.last (n : News) (last : List Char) : List Char :=
  if isPureHex n.text then n.text else if n.starts then [] else last

section News

variable (rt : Runtime)

/-- The extranonce of `mining.set_extranonce`. -/
def setExtranonceText (responseObject : Json) : Option (List Char) := do
  let jPrm ← responseObject.get "params" .null
  if jPrm.isArray then stringParam rt jPrm 0 else none

/-- The extranonce of `mining.set`. -/
def miningSetText (responseObject : Json) : Option (List Char) := do
  let jPrm ← responseObject.member "params"
  if jPrm.isObject ∧ ¬ jPrm.empty then (← jPrm.get "extranonce" (.text "")).asString rt.valueToString else none

/-- What a notification says. -/
def notificationNews (mode : ℕ) (method : List Char) (responseObject : Json) : News :=
  if method = "mining.set_extranonce".toList ∧ mode = ETHEREUMSTRATUM then
    { text := (setExtranonceText rt responseObject).getD [] }
  else if method = "mining.set".toList ∧ mode = ETHEREUMSTRATUM2 then
    { text := (miningSetText rt responseObject).getD [] }
  else {}

/-- What the reply to `mining.subscribe` of EthereumStratum/1.0.0 says. -/
def niceHashNews (jResult : Json) : News :=
  if niceHashAccepts rt jResult = some true then { starts := true, text := (stringParam rt jResult 1).getD [] }
  else {}

/-- What the reply to the first message of a connection says. -/
def loginNews (conn : Conn) (h : Header) (jResult : Json) : News :=
  if ¬ h.isSuccess ∧ ¬ conn.stratumModeConfirmed then {}
  else if conn.stratumMode = 3 then { starts := helloAccepts rt jResult = some true }
  else if conn.stratumMode = 2 then niceHashNews rt jResult
  else if conn.stratumMode = 1 ∨ conn.stratumMode = 0 then { starts := h.isSuccess }
  else {}

/-- What a response says. -/
def responseNews (conn : Conn) (h : Header) (responseObject : Json) : News :=
  if h.id = 1 then ((responseObject.get "result" .null).map (loginNews rt conn h)).getD {} else {}

/-- What a message says once it has passed the sanity checks. -/
def dispatchNews (conn : Conn) (h : Header) (method : List Char) (responseObject : Json) : News :=
  if h.isNotification then
    if conn.stratumModeConfirmed then notificationNews rt conn.stratumMode method responseObject else {}
  else responseNews rt conn h responseObject

/-- What a message says to a client. -/
def news (c : Client) (responseObject : Json) : News :=
  (do
    let h ← retrieve rt responseObject
    let method ← methodOf c.conn.stratumMode h responseObject
    if ← insane h responseObject then none
    else some (dispatchNews rt c.conn h method responseObject) : Option News).getD {}

/-- A client, with the last extranonce of its session. -/
structure Tracked where
  client : Client
  last : List Char

/-- A message comes. -/
def Tracked.next (p : Tracked) (e : ℤ × Json) : Tracked where
  client := after rt e.1 p.client e.2
  last := (news rt p.client e.2).last p.last

/-- The message carries no extranonce, or one that is a numeral, and then it is handled to its end. -/
def Fit (p : Tracked) (e : ℤ × Json) : Prop :=
  (news rt p.client e.2).text = [] ∨
    isPureHex (news rt p.client e.2).text ∧ thrown (processResponse rt e.1 e.2) p.client = none

instance (p : Tracked) (e : ℤ × Json) : Decidable (Fit rt p e) := inferInstanceAs (Decidable (_ ∨ _))

end News

/-- The fields of the session describe the extranonce `last`. -/
structure Describes (last : List Char) (s : Session) : Prop where
  size_le : s.extraNonceSizeBytes.toNat ≤ 16
  size : s.extraNonceSizeBytes.toNat = last.length
  digits : toHexDigits 16 s.extraNonce.toNat =
    last.map Char.toLower ++ List.replicate (16 - last.length) '0'

/-- The session of the client, if it has one, describes `last`. -/
def Holds (last : List Char) (c : Client) : Prop := ∀ s, c.session = some s → Describes last s

/-- The session describes the last extranonce. -/
def Tracked.Described (p : Tracked) : Prop := Holds p.last p.client

/-- An exception leaves a session that describes `last` if `p` holds. -/
def Spared (p : Prop) (last : List Char) (_ : Fault) (c : Client) : Prop := p → Holds last c

theorem describes_nil : Describes [] {} := ⟨by decide, rfl, by decide⟩

section Frame

variable {last : List Char} {p : Prop} (rt : Runtime) (now : ℤ)

instance : StableNotify (Holds last) (Spared p last) where
  stdException h _ := h
  nullSession h _ _ := h
  effects h _ := h
  currentTimestamp h _ := h
  authpending h _ := h
  pleas h _ := h
  unrecoverable h := h
  confirmed h := h
  foreignException h _ := h
  current h _ := h
  newjobprocessed h _ := h

/-- A write that leaves the two fields alone. -/
instance (subscribed authorized : Session → Bool) (nextWorkBoundary : Session → H256) (nextWorkDifficulty : Session → ℚ)
    (firstMiningSet : Session → Bool) (timeout : Session → BitVec 32) (sessionId workerId : Session → List Char)
    (epoch : Session → BitVec 32) :
    Keeps (Holds last) (Spared p last) (modifySession fun s => ⟨subscribed s, authorized s, s.extraNonce,
      s.extraNonceSizeBytes, nextWorkBoundary s, nextWorkDifficulty s, firstMiningSet s, timeout s, sessionId s,
      workerId s, epoch s⟩) := by
  refine ⟨fun c hc => ?_⟩
  unfold modifySession
  rw [ends_bind, ends_session]
  refine ⟨fun s hs => ?_, fun _ _ => hc⟩
  rintro _ ⟨⟩
  obtain ⟨hle, hsize, hdigits⟩ := hc s hs
  exact ⟨hle, hsize, hdigits⟩

instance (jResult : Json) : Keeps (Holds last) (Spared p last) (subscribeResponse now jResult) := by
  refine Keeps.bind inferInstance fun m => ?_
  split_ifs <;> try infer_instance
  refine Keeps.bind inferInstance fun _ => ?_
  split <;> infer_instance

instance (h : Header) (jResult : Json) :
    Keeps (Holds last) (Spared p last) (authorizeResponse now h jResult) := by
  unfold authorizeResponse
  dsimp only
  infer_instance

instance (m : Json) : Keeps (Holds last) (Spared p last) (setTarget rt m) := by
  unfold setTarget
  infer_instance

instance (m : Json) : Keeps (Holds last) (Spared p last) (setNextWorkDifficulty rt m) := by
  unfold setNextWorkDifficulty
  infer_instance

end Frame

section Handlers

variable {last : List Char} {c : Client} {α : Type} (rt : Runtime) (now : ℤ)

/-- The handler leaves the session as the news say. -/
def Tells (n : News) (last : List Char) (x : ClientM α) (c : Client) : Prop :=
  Ends x c (fun _ => Holds (n.last last)) (Spared (n.text = []) (n.last last))

/-- A text that is none or a numeral. -/
def IsFit (text : List Char) : Prop := text = [] ∨ isPureHex text

/-- What keeps the fields has nothing to say. -/
theorem tells_of_keeps {x : ClientM α} (hx : ∀ p, Keeps (Holds last) (Spared p last) x) (hc : Holds last c) :
    Tells {} last x c :=
  (hx _).ends c hc

/-- A new session describes no extranonce. -/
theorem ends_newSession {mode : ℕ} {k : ClientM Unit} {Q : Unit → Client → Prop} {E : Fault → Client → Prop}
    (hk : ∀ c, Holds [] c → Ends k c Q E) :
    Ends (do
      setStratumMode mode
      startSession now
      k) c Q E := by
  unfold setStratumMode modifyConn startSession emit
  simp only [ends_bind, ends_modify]
  refine hk _ ?_
  rintro _ ⟨⟩
  exact describes_nil

theorem isPureHex_iff {text : List Char} :
    isPureHex text ↔ text ≠ [] ∧ (∀ c ∈ text, isHexDigit c) ∧ text.length ≤ 16 := by
  simp [isPureHex, and_assoc]

/-- **A numeral is stored with its size.** -/
theorem ends_processExtranonce {text : List Char} {p : Prop} (htext : isPureHex text) (hp : ¬ p) :
    Ends (processExtranonce text) c (fun _ => Holds text) (Spared p last) := by
  obtain ⟨-, hhex, hlen⟩ := isPureHex_iff.1 htext
  cases hs : c.session with
  | none =>
    unfold processExtranonce
    rw [ends_bind, Ends, modifySession_run_none hs]
    exact fun h => absurd h hp
  | some s =>
    rw [Ends, processExtranonce_run hs (stoull16_filled hhex hlen)]
    rintro _ ⟨⟩
    have hlength := length_filled hlen
    refine ⟨?_, ?_, ?_⟩
    · simp only [BitVec.toNat_ofNat]
      omega
    · simp only [BitVec.toNat_ofNat]
      omega
    · have hdigits := toHexDigits_hexValue (filled_isHex hhex hlen)
      have hlt := hexValue_lt_two_pow hlength.le
      rw [hlength, filled_eq hlen, List.map_append, List.map_replicate] at hdigits
      rw [BitVec.toNat_ofNat, Nat.mod_eq_of_lt hlt, filled_eq hlen]
      exact hdigits

/-- A text, and then what keeps the fields. -/
theorem tells_text_bind {text : List Char} {k : Unit → ClientM Unit} (hk : ∀ l p, Keeps (Holds l) (Spared p l) (k ()))
    (hfit : IsFit text) (hc : Holds last c) :
    Tells { text := text } last (if text ≠ [] then processExtranonce text >>= k else k ()) c := by
  rcases hfit with rfl | hpure
  · exact (hk _ _).ends c hc
  · have hne := (isPureHex_iff.1 hpure).1
    have hlast : ({ text := text } : News).last last = text := if_pos hpure
    unfold Tells
    rw [if_pos hne, hlast, ends_bind]
    exact (ends_processExtranonce hpure hne).imp (fun _ c' h => (hk _ _).ends c' h) fun _ _ h => h

theorem tells_text {text : List Char} (hfit : IsFit text) (hc : Holds last c) :
    Tells { text := text } last (if text ≠ [] then processExtranonce text else pure ()) c := by
  have htells := tells_text_bind (k := pure) (fun _ _ => inferInstance) hfit hc
  rwa [bind_pure] at htells

theorem tells_setExtranonce {m : Json} (hfit : IsFit ((setExtranonceText rt m).getD [])) (hc : Holds last c) :
    Tells { text := (setExtranonceText rt m).getD [] } last (setExtranonce rt m) c := by
  unfold setExtranonceText at hfit ⊢
  unfold setExtranonce Tells
  cases hget : m.get "params" .null with
  | none =>
    rw [ends_expect_none_bind]
    exact fun _ => hc
  | some jPrm =>
    rw [hget] at hfit
    rw [ends_expect_some_bind]
    simp only [Option.bind_eq_bind, Option.bind_some] at hfit ⊢
    by_cases harray : jPrm.isArray
    · rw [if_pos harray] at hfit ⊢
      rw [if_pos harray]
      cases htext : stringParam rt jPrm 0 with
      | none =>
        rw [ends_expect_none_bind]
        exact fun _ => hc
      | some text =>
        rw [htext] at hfit
        rw [ends_expect_some_bind]
        exact tells_text hfit hc
    · rw [if_neg harray, if_neg harray]
      exact hc

/-- A text alone, if an exception spares the fields. -/
theorem tells_of_spared {text : List Char} {x : ClientM α}
    (hx : Ends x c (fun _ => Holds (({ text := text } : News).last last)) (Spared (text = []) last)) :
    Tells { text := text } last x c := by
  refine hx.imp (fun _ _ h => h) fun _ _ hspared htext => ?_
  obtain rfl : text = [] := htext
  exact hspared rfl

/-- The end of `mining.set`. -/
theorem leads_extranonce {jPrm : Json} {text : List Char}
    (htext : ((jPrm.get "extranonce" (.text "")).bind (Json.asString rt.valueToString)).getD [] = text)
    (hfit : IsFit text) :
    Leads (Holds last) (fun _ => Holds (({ text := text } : News).last last)) (Spared (text = []) last) (do
      let enonce ← (do asString rt (← expect (jPrm.get "extranonce" (.text ""))))
      if enonce ≠ [] then processExtranonce enonce) := by
  refine ⟨fun c hc => ?_⟩
  simp only [ends_bind, ends_expect, asString]
  refine ⟨fun v hv => ⟨fun enonce henonce => ?_, fun _ _ => hc⟩, fun _ _ => hc⟩
  rw [hv, Option.bind_some, henonce] at htext
  obtain rfl : enonce = text := htext
  refine (tells_text hfit hc).imp (fun _ _ h => h) fun _ _ hspared hnil => ?_
  obtain rfl := hnil
  exact hspared rfl

theorem tells_miningSet {m : Json} (hfit : IsFit ((miningSetText rt m).getD [])) (hc : Holds last c) :
    Tells { text := (miningSetText rt m).getD [] } last (miningSet rt m) c := by
  unfold miningSetText at hfit ⊢
  unfold miningSet Tells
  cases hget : m.member "params" with
  | none =>
    rw [ends_expect_none_bind]
    exact fun _ => hc
  | some jPrm =>
    rw [hget] at hfit
    rw [ends_expect_some_bind]
    simp only [Option.bind_eq_bind, Option.bind_some] at hfit ⊢
    split_ifs with hobject
    · rw [if_pos hobject] at hfit
      have htail (l : List Char) := @leads_extranonce l rt _ _ rfl hfit
      exact tells_of_spared (Leads.ends (P := Holds last) c hc)
    · exact hc

/-- A session is started or the negotiation has failed. -/
theorem tells_start {mode : ℕ} {k : ClientM Unit} (hk : ∀ p, Keeps (Holds []) (Spared p []) k) (starts : Bool)
    (hc : Holds last c) :
    Tells { starts := starts } last (if starts then (do
      setStratumMode mode
      startSession now
      k) else negotiationFailed) c := by
  cases starts with
  | false => exact tells_of_keeps (x := negotiationFailed) (fun _ => inferInstance) hc
  | true => exact ends_newSession now fun c hc => (hk _).ends c hc

theorem tells_helloResponse (jResult : Json) (hc : Holds last c) :
    Tells { starts := helloAccepts rt jResult = some true } last (helloResponse rt now jResult) c := by
  unfold helloResponse Tells
  cases helloAccepts rt jResult with
  | none =>
    rw [ends_expect_none_bind]
    exact fun _ => hc
  | some accepts =>
    rw [ends_expect_some_bind]
    have hstarts : decide (some accepts = some true) = accepts := by
      cases accepts <;> rfl
    rw [hstarts]
    exact tells_start now (fun _ => inferInstance) accepts hc

theorem tells_niceHashResponse {jResult : Json} (hfit : IsFit (niceHashNews rt jResult).text) (hc : Holds last c) :
    Tells (niceHashNews rt jResult) last (niceHashResponse rt now jResult) c := by
  unfold niceHashNews at hfit ⊢
  unfold niceHashResponse Tells
  cases haccepts : niceHashAccepts rt jResult with
  | none =>
    rw [ends_expect_none_bind]
    exact fun _ => hc
  | some accepts =>
    rw [haccepts] at hfit
    rw [ends_expect_some_bind]
    cases accepts with
    | false => exact tells_of_keeps (x := negotiationFailed) (fun _ => inferInstance) hc
    | true =>
      refine ends_newSession now fun c hc =>
        (tells_of_spared ?_ : Tells { text := (stringParam rt jResult 1).getD [] } [] _ c)
      refine Keeps.ends_bind (P := Holds []) inferInstance hc fun _ c hc => ?_
      refine Keeps.ends_bind (P := Holds []) inferInstance hc fun _ c hc => ?_
      rw [if_pos rfl] at hfit
      cases htext : stringParam rt jResult 1 with
      | none =>
        rw [ends_expect_none_bind]
        exact fun _ => hc
      | some text =>
        rw [htext] at hfit
        rw [ends_expect_some_bind]
        refine (tells_text_bind (fun _ _ => inferInstance) hfit hc).imp (fun _ _ h => h) fun _ _ hspared hnil => ?_
        obtain rfl := hnil
        exact hspared rfl

theorem tells_loginResponse {h : Header} {jResult : Json} (hfit : IsFit (loginNews rt c.conn h jResult).text)
    (hc : Holds last c) : Tells (loginNews rt c.conn h jResult) last (loginResponse rt now h jResult) c := by
  unfold loginResponse dequeueResponsePlea Tells
  simp only [ends_bind, ends_get, ends_modify, ends_pure]
  have hc' : Holds last { c with pleas := (c.pleas.dequeue now).1 } := hc
  change Tells (loginNews rt c.conn h jResult) last _ _
  unfold loginNews at hfit ⊢
  by_cases hrejected : ¬ h.isSuccess ∧ ¬ c.conn.stratumModeConfirmed
  · simp only [if_pos hrejected]
    exact tells_of_keeps (fun _ => inferInstance) hc'
  · simp only [if_neg hrejected] at hfit ⊢
    split_ifs at hfit ⊢ with hthree htwo hother
    · simp only [hthree]
      exact tells_helloResponse rt now jResult hc'
    · simp only [htwo]
      exact tells_niceHashResponse rt now hfit hc'
    · rcases hother with hone | hzero
      · simp only [hone]
        exact tells_start now (fun _ => inferInstance) h.isSuccess hc'
      · simp only [hzero]
        exact tells_start now (fun _ => inferInstance) h.isSuccess hc'
    · obtain ⟨hone, hzero⟩ := not_or.1 hother
      split
      · contradiction
      · contradiction
      · contradiction
      · contradiction
      · exact tells_of_keeps (fun _ => inferInstance) hc'

theorem tells_handleResponse {h : Header} {m : Json} (hfit : IsFit (responseNews rt c.conn h m).text)
    (hc : Holds last c) : Tells (responseNews rt c.conn h m) last (handleResponse rt now h m) c := by
  unfold responseNews at hfit ⊢
  unfold handleResponse Tells
  cases hresult : m.get "result" .null with
  | none =>
    rw [ends_expect_none_bind]
    split_ifs <;> exact fun _ => hc
  | some jResult =>
    rw [hresult] at hfit
    rw [ends_expect_some_bind, ends_bind, ends_get]
    change Tells _ last _ c
    by_cases hid : h.id = 1
    · simp only [if_pos hid] at hfit ⊢
      unfold Tells
      rw [ends_bind]
      exact tells_loginResponse rt now hfit hc
    · simp only [if_neg hid]
      exact tells_of_keeps (fun _ => inferInstance) hc

theorem tells_handleNotification {h : Header} {method : List Char} {m : Json}
    (hfit : IsFit (notificationNews rt c.conn.stratumMode method m).text) (hc : Holds last c) :
    Tells (notificationNews rt c.conn.stratumMode method m) last (handleNotification rt now h method m) c := by
  unfold notificationNews at hfit ⊢
  unfold handleNotification Tells
  rw [ends_bind, ends_stratumMode]
  change Tells _ last _ c
  split_ifs at hfit with hset hmining
  · obtain ⟨rfl, hmode⟩ := hset
    rw [if_pos ⟨rfl, hmode⟩, if_neg (by decide), if_neg (by decide), if_neg (by simp), if_pos ⟨rfl, hmode⟩]
    exact tells_setExtranonce rt hfit hc
  · obtain ⟨rfl, hmode⟩ := hmining
    rw [if_neg hset, if_pos ⟨rfl, hmode⟩, if_neg (by decide), if_neg (by decide), if_neg (by simp), if_neg hset,
      if_pos ⟨rfl, hmode⟩]
    exact tells_miningSet rt hfit hc
  · rw [if_neg hset, if_neg hmining, if_neg hset, if_neg hmining]
    exact tells_of_keeps (fun _ => inferInstance) hc

/-- The job in a response. -/
instance {p : Prop} (h : Header) (m : Json) :
    Keeps (Holds last) (Spared p last) (handleNotification rt now h miningNotify m) := by
  refine Keeps.bind inferInstance fun mode => ?_
  rw [if_pos rfl]
  infer_instance

theorem tells_dispatch {h : Header} {method : List Char} {m : Json}
    (hfit : IsFit (dispatchNews rt c.conn h method m).text) (hc : Holds last c) :
    Tells (dispatchNews rt c.conn h method m) last (dispatch rt now h method m) c := by
  unfold dispatchNews at hfit ⊢
  unfold dispatch
  by_cases hnotification : h.isNotification
  · rw [if_pos hnotification] at hfit
    rw [if_pos hnotification, if_pos hnotification, Tells, ends_bind, ends_get]
    change Tells _ last _ c
    split_ifs at hfit ⊢ with hconfirmed
    · exact tells_handleNotification rt now hfit hc
    · exact hc
  · rw [if_neg hnotification] at hfit
    rw [if_neg hnotification, if_neg hnotification, Tells, ends_bind]
    refine (tells_handleResponse rt now hfit hc).imp (fun isJob c' hc' => ?_) fun _ _ h => h
    exact Keeps.ends c' hc'

/-- **What a message does to the extranonce.** -/
theorem tells_processResponse {m : Json} (hfit : IsFit (news rt c m).text) (hc : Holds last c) :
    Tells (news rt c m) last (processResponse rt now m) c := by
  unfold news at hfit ⊢
  unfold processResponse Tells
  cases hretrieve : retrieve rt m with
  | none =>
    rw [ends_expect_none_bind]
    exact fun _ => hc
  | some h =>
    rw [hretrieve] at hfit
    rw [ends_expect_some_bind, ends_bind, ends_stratumMode]
    simp only [Option.bind_eq_bind, Option.bind_some] at hfit ⊢
    cases hmethod : methodOf c.conn.stratumMode h m with
    | none =>
      rw [ends_expect_none_bind]
      exact fun _ => hc
    | some method =>
      rw [hmethod] at hfit
      rw [ends_expect_some_bind]
      simp only [Option.bind_some] at hfit ⊢
      cases hinsane : insane h m with
      | none =>
        rw [ends_expect_none_bind]
        exact fun _ => hc
      | some bad =>
        rw [hinsane] at hfit
        rw [ends_expect_some_bind]
        cases bad with
        | true => exact tells_of_keeps (x := postDisconnect) (fun _ => inferInstance) hc
        | false => exact tells_dispatch rt now hfit hc

end Handlers

section Runs

variable (rt : Runtime)

/-- **The step.** -/
theorem Tracked.Described.next {p : Tracked} {e : ℤ × Json} (hp : p.Described) (hfit : Fit rt p e) :
    (p.next rt e).Described := by
  have htext : IsFit (news rt p.client e.2).text := hfit.imp_right And.left
  have htells := tells_processResponse rt e.1 htext hp
  unfold Tracked.next after final
  unfold Tells Ends at htells
  cases hrun : processResponse rt e.1 e.2 p.client with
  | ok u c =>
    rw [hrun] at htells
    exact htells
  | error fault c =>
    rw [hrun] at htells
    refine htells (hfit.resolve_right fun hreturns => ?_)
    have hnone := hreturns.2
    rw [thrown, hrun] at hnone
    cases hnone

/-- A client that has no session yet. -/
def Tracked.start (c : Client) : Tracked := ⟨{ c with session := none }, []⟩

/-- **The session describes the last extranonce** in every run whose messages carry none or a pure
hex string of at most 16 digits that is handled to its end. -/
theorem described_of_fit (c : Client) (es : List (ℤ × Json))
    (h : Along (Tracked.next rt) (Fit rt) (Tracked.start c) es) :
    (run (Tracked.next rt) (Tracked.start c) es).Described := by
  have hstart : (Tracked.start c).Described := by
    rintro s ⟨⟩
  exact Along.run_inv hstart (fun p e hp hfit => hp.next rt hfit) h

end Runs

section Pool

/-- A client that connects in mode 2. -/
def niceHashClient : Client where
  conn := { stratumMode := ETHEREUMSTRATUM, stratumModeConfirmed := true }
  pleas := { older := 0 }

/-- The reply to `mining.subscribe` with an extranonce. -/
def niceHashReply (enonce : String) : Json :=
  .obj [("id".toList, .int 1), ("result".toList,
    .arr [.arr [.text "mining.notify", .text "1", .text "EthereumStratum/1.0.0"], .text enonce])]

/-- `mining.set_extranonce`. -/
def setExtranonceMessage (enonce : String) : Json :=
  .obj [("method".toList, .text "mining.set_extranonce"), ("params".toList, .arr [.text enonce])]

/-- Two extranonces, one after the other. -/
theorem described_of_fit_twice :
    (run (Tracked.next echoRuntime) (Tracked.start niceHashClient)
      [(0, niceHashReply "AF4c"), (1, setExtranonceMessage "0b")]).last = "0b".toList ∧
    (run (Tracked.next echoRuntime) (Tracked.start niceHashClient)
      [(0, niceHashReply "AF4c"), (1, setExtranonceMessage "0b")]).Described :=
  ⟨by decide +kernel, described_of_fit echoRuntime niceHashClient _ (by decide +kernel)⟩

/-- The size that is stored for a text that is no numeral. -/
theorem unreadable_size :
    (run (Tracked.next echoRuntime) (Tracked.start niceHashClient)
      [(0, niceHashReply "af4c"), (1, setExtranonceMessage "zz")]).client.session.map
        (fun s => s.extraNonceSizeBytes.toNat) = some 2 := by
  decide +kernel

/-- **A text that is no numeral leaves the size of its own** with the extranonce before it. -/
theorem unreadable_extranonce_not_described :
    ¬ (run (Tracked.next echoRuntime) (Tracked.start niceHashClient)
      [(0, niceHashReply "af4c"), (1, setExtranonceMessage "zz")]).Described := by
  intro hdescribed
  obtain ⟨s, hs, hsize⟩ := Option.map_eq_some_iff.1 unreadable_size
  have hlast : (run (Tracked.next echoRuntime) (Tracked.start niceHashClient)
      [(0, niceHashReply "af4c"), (1, setExtranonceMessage "zz")]).last = "af4c".toList := by
    decide +kernel
  have hlength := (hdescribed s hs).size
  rw [hsize, hlast] at hlength
  exact absurd hlength (by decide)

end Pool

end Stratum
end EtcMiner
