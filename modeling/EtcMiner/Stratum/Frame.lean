/-
# What the message handler leaves alone

Apart from the branches for `mining.notify` the message handler writes the session, the
pleas, a few flags of its own and the effects, and of the connection it only ever confirms
the mode or gives it up: the branches that set the mode set the one they are for.  A
predicate that such writes keep is `Stable`; every handler keeps it, by instance search over
its parts.  One that the writes of a job keep as well is `StableJob`, and the whole line
loop keeps it.  The handlers that do not write the session ask for less, `StableBase` and
`StableNotify`.
-/

import EtcMiner.Stratum.Receive
import EtcMiner.Stratum.SubmitSolution

namespace EtcMiner
namespace Stratum

open Common Eth Lib

-- the handlers are long sequences
set_option synthInstance.maxSize 100000

/-- The writes outside of the session keep `P`. -/
class StableBase (P : Client → Prop) (E : Fault → Client → Prop) : Prop where
  stdException : ∀ {c}, P c → E .stdException c
  nullSession : ∀ {c}, P c → c.session = none → E .undefinedBehaviour c
  effects : ∀ {c}, P c → ∀ v, P { c with effects := v }
  currentTimestamp : ∀ {c}, P c → ∀ v, P { c with currentTimestamp := v }
  authpending : ∀ {c}, P c → ∀ v, P { c with authpending := v }
  pleas : ∀ {c}, P c → ∀ v, P { c with pleas := v }
  unrecoverable : ∀ {c}, P c → P { c with conn := { c.conn with unrecoverable := true } }
  confirmed : ∀ {c}, P c → P { c with conn := { c.conn with stratumModeConfirmed := true } }

/-- The writes of the handlers other than those for `mining.notify` keep `P`. -/
class Stable (P : Client → Prop) (E : Fault → Client → Prop) : Prop extends StableBase P E where
  session : ∀ {c}, P c → ∀ s, P { c with session := some s }

/-- The writes of `mining.notify` keep `P`. -/
class StableNotify (P : Client → Prop) (E : Fault → Client → Prop) : Prop extends StableBase P E where
  foreignException : ∀ {c}, P c → E .foreignException c
  current : ∀ {c}, P c → ∀ v, P { c with current := v }
  newjobprocessed : ∀ {c}, P c → ∀ v, P { c with newjobprocessed := v }

/-- All writes keep `P`, those of the line loop and of a submission as well. -/
class StableJob (P : Client → Prop) (E : Fault → Client → Prop) : Prop extends Stable P E, StableNotify P E where
  caught : ∀ {c}, E .stdException c → P c
  message : ∀ {c}, P c → ∀ v, P { c with message := v }
  solutionSubmittedMaxId : ∀ {c}, P c → ∀ v, c.solutionSubmittedMaxId ≤ v →
    P { c with solutionSubmittedMaxId := v }

variable {P : Client → Prop} {E : Fault → Client → Prop} (rt : Runtime) (now : ℤ)

/-- What is kept together with a mode is kept from a state in that mode. -/
theorem ends_of_mode {α : Type} {mode : ℕ} {x : ClientM α} {c : Client}
    (hx : Keeps (fun c => P c ∧ c.conn.stratumMode = mode) E x) (hc : P c)
    (hmode : c.conn.stratumMode = mode) : Ends x c (fun _ => P) E :=
  (hx.ends c ⟨hc, hmode⟩).imp (fun _ _ h => h.1) fun _ _ h => h

section StableBase

variable [hP : StableBase P E]

instance {α : Type} (o : Option α) : Keeps P E (expect o) := by
  refine ⟨fun c hc => ?_⟩
  unfold expect
  rw [ends_ofOption]
  exact ⟨fun _ _ => hc, fun _ => hP.stdException hc⟩

instance (e : Effect) : Keeps P E (emit e) := keeps_modify fun _ h => hP.effects h _

instance (jReq : Json) : Keeps P E (send jReq) := inferInstanceAs (Keeps _ _ (emit _))

instance : Keeps P E postDisconnect := inferInstanceAs (Keeps _ _ (emit _))

instance : Keeps P E session := by
  refine ⟨fun c hc => ?_⟩
  unfold session
  rw [ends_bind, ends_get]
  cases hs : c.session with
  | none => exact hP.nullSession hc hs
  | some s => exact hc

instance : Keeps P E stratumMode := Keeps.bind inferInstance fun _ => inferInstance

instance : Keeps P E markUnrecoverable := keeps_modify fun _ h => hP.unrecoverable h

instance (v : Json) : Keeps P E (asString rt v) := inferInstanceAs (Keeps _ _ (expect _))

instance : Keeps P E (enqueueResponsePlea now) := keeps_modify fun _ h => hP.pleas h _

instance : Keeps P E (dequeueResponsePlea now) :=
  Keeps.bind inferInstance fun _ => Keeps.bind (keeps_modify fun _ h => hP.pleas h _)
    fun _ => inferInstance

instance (value : Bool) : Keeps P E (storeAuthpending value) :=
  keeps_modify fun _ h => hP.authpending h _

instance : Keeps P E negotiationFailed := by
  unfold negotiationFailed
  infer_instance

instance (h : Header) (responseObject jResult : Json) :
    Keeps P E (submitResponse rt now h responseObject jResult) := by
  unfold submitResponse
  dsimp only
  infer_instance

instance (h : Header) : Keeps P E (strayResponse h) := by
  unfold strayResponse
  infer_instance

/-- The mode is kept with `P`. -/
instance (mode : ℕ) : StableBase (fun c => P c ∧ c.conn.stratumMode = mode) E where
  stdException h := hP.stdException h.1
  nullSession h hs := hP.nullSession h.1 hs
  effects h v := ⟨hP.effects h.1 v, h.2⟩
  currentTimestamp h v := ⟨hP.currentTimestamp h.1 v, h.2⟩
  authpending h v := ⟨hP.authpending h.1 v, h.2⟩
  pleas h v := ⟨hP.pleas h.1 v, h.2⟩
  unrecoverable h := ⟨hP.unrecoverable h.1, h.2⟩
  confirmed h := ⟨hP.confirmed h.1, h.2⟩

/-- A connection that is confirmed in its mode keeps it. -/
instance (mode : ℕ) : Keeps (fun c => P c ∧ c.conn.stratumMode = mode) E (setStratumMode mode) := by
  refine keeps_modify fun c h => ?_
  obtain ⟨hc, rfl⟩ := h
  exact ⟨hP.confirmed hc, rfl⟩

end StableBase

section Stable

variable [hP : Stable P E]

instance (f : Session → Session) : Keeps P E (modifySession f) :=
  Keeps.bind inferInstance fun _ => keeps_modify fun _ h => hP.session h _

instance : Keeps P E (startSession now) :=
  Keeps.bind (keeps_modify fun _ h => hP.currentTimestamp (hP.session h {}) now)
    fun _ => inferInstance

instance (enonce : List Char) : Keeps P E (processExtranonce enonce) := by
  unfold processExtranonce
  infer_instance

instance (mode : ℕ) : Stable (fun c => P c ∧ c.conn.stratumMode = mode) E where
  session h v := ⟨hP.session h.1 v, h.2⟩

instance (jResult : Json) :
    Keeps (fun c => P c ∧ c.conn.stratumMode = 3) E (helloResponse rt now jResult) := by
  unfold helloResponse
  infer_instance

instance (jResult : Json) :
    Keeps (fun c => P c ∧ c.conn.stratumMode = 2) E (niceHashResponse rt now jResult) := by
  unfold niceHashResponse
  dsimp only
  infer_instance

instance (isSuccess : Bool) :
    Keeps (fun c => P c ∧ c.conn.stratumMode = 1) E (proxyResponse now isSuccess) := by
  unfold proxyResponse
  infer_instance

instance (isSuccess : Bool) :
    Keeps (fun c => P c ∧ c.conn.stratumMode = 0) E (stratumResponse now isSuccess) := by
  unfold stratumResponse
  infer_instance

instance (h : Header) (jResult : Json) : Keeps P E (loginResponse rt now h jResult) := by
  refine Keeps.bind inferInstance fun _ => ⟨fun c hc => ?_⟩
  rw [ends_bind, ends_get, ends_ite]
  refine ⟨fun _ => Keeps.ends c hc, fun _ => ?_⟩
  -- each branch keeps the mode it is for
  split
  case h_5 => exact Keeps.ends c hc
  all_goals
    rename_i heq
    exact ends_of_mode inferInstance hc heq

instance (jResult : Json) : Keeps P E (subscribeResponse now jResult) := by
  refine Keeps.bind inferInstance fun m => ?_
  split_ifs <;> try infer_instance
  refine Keeps.bind inferInstance fun _ => ?_
  split <;> infer_instance

instance (h : Header) (jResult : Json) : Keeps P E (authorizeResponse now h jResult) := by
  unfold authorizeResponse
  dsimp only
  infer_instance

instance (h : Header) (responseObject : Json) :
    Keeps P E (handleResponse rt now h responseObject) := by
  unfold handleResponse
  infer_instance

instance (responseObject : Json) : Keeps P E (setTarget rt responseObject) := by
  unfold setTarget
  infer_instance

instance (responseObject : Json) : Keeps P E (setNextWorkDifficulty rt responseObject) := by
  unfold setNextWorkDifficulty
  infer_instance

instance (responseObject : Json) : Keeps P E (setExtranonce rt responseObject) := by
  unfold setExtranonce
  infer_instance

instance (responseObject : Json) : Keeps P E (miningSet rt responseObject) := by
  unfold miningSet
  dsimp only
  infer_instance

end Stable

section StableNotify

variable [hP : StableNotify P E]

instance (f : WorkPackage → WorkPackage) : Keeps P E (modifyCurrent f) :=
  keeps_modify fun _ h => hP.current h _

instance : Keeps P E signalJob := keeps_modify fun _ h => hP.newjobprocessed h _

instance : Keeps P E (stampJob now) := keeps_modify fun _ h => hP.currentTimestamp h _

instance : Keeps P E (setDifficulty rt) := by
  unfold setDifficulty
  infer_instance

instance (jPrm : Json) : Keeps P E (notifyNiceHash rt now jPrm) := by
  unfold notifyNiceHash
  infer_instance

instance {α : Type} : Keeps P E (throw .foreignException : ClientM α) :=
  keeps_throw fun _ h => hP.foreignException h

instance (mode : ℕ) (jPrm : Json) (prmIdx : ℕ) : Keeps P E (readBlock rt mode jPrm prmIdx) := by
  refine Keeps.bind inferInstance fun _ => ?_
  split_ifs <;> try infer_instance
  refine Keeps.bind inferInstance fun text => ?_
  split_ifs <;> try infer_instance
  split <;> infer_instance

instance (mode : ℕ) (jPrm : Json) (prmIdx : ℕ) :
    Keeps P E (notifyStratum rt now mode jPrm prmIdx) := by
  unfold notifyStratum
  infer_instance

instance (mode : ℕ) (responseObject : Json) : Keeps P E (notifyJob rt now mode responseObject) := by
  unfold notifyJob
  infer_instance

instance (responseObject : Json) : Keeps P E (notify rt now responseObject) := by
  unfold notify
  infer_instance

instance (s : Session) (jPrm : Json) : Keeps P E (notifyJob2 rt now s jPrm) := by
  unfold notifyJob2
  infer_instance

instance (responseObject : Json) : Keeps P E (notify2 rt now responseObject) := by
  refine Keeps.bind inferInstance fun c => ?_
  split <;> infer_instance

end StableNotify

section StableJob

variable [hP : StableJob P E]

instance (h : Header) (method : List Char) (responseObject : Json) :
    Keeps P E (handleNotification rt now h method responseObject) := by
  unfold handleNotification
  infer_instance

instance (h : Header) (method : List Char) (responseObject : Json) :
    Keeps P E (dispatch rt now h method responseObject) := by
  unfold dispatch
  infer_instance

/-- **A message** keeps `P`. -/
instance (responseObject : Json) : Keeps P E (processResponse rt now responseObject) := by
  unfold processResponse
  infer_instance

instance (jMsg : Json) : Keeps P E (tryProcessResponse rt now jMsg) := by
  refine ⟨fun c hc => ?_⟩
  unfold tryProcessResponse
  rw [ends_tryCatch]
  refine (Keeps.ends (E := E) c hc).imp (fun _ _ h => h) fun e c' h => ?_
  cases e with
  | stdException => exact hP.caught h
  | foreignException => exact h
  | undefinedBehaviour => exact h

theorem keeps_processLines (lines : List (List Char)) : Keeps P E (processLines rt now lines) := by
  induction lines with
  | nil => exact inferInstanceAs (Keeps P E (pure ()))
  | cons line lines ih =>
    unfold processLines
    split <;> infer_instance

/-- **A transmission** keeps `P`. -/
instance (rxMessage : List Char) : Keeps P E (onRecvSocketDataCompleted rt now rxMessage) := by
  refine Keeps.bind ?_ fun w => ?_
  · refine Keeps.bind (keeps_modify fun c h =>
      hP.newjobprocessed (hP.message h (c.message ++ rxMessage)) false) fun _ => Keeps.bind inferInstance fun c => ?_
    refine Keeps.bind (keeps_processLines rt now _) fun _ => ?_
    exact Keeps.bind (keeps_modify fun _ h => hP.message h _) fun _ => inferInstance
  · split <;> infer_instance

/-- **A submission** keeps `P`. -/
instance (solution : Solution) : Keeps P E (submitSolution now solution) := by
  refine Keeps.bind inferInstance fun c => ?_
  dsimp only
  split_ifs
  · refine Keeps.bind (keeps_modify fun c h => hP.solutionSubmittedMaxId h _ ?_) fun _ => inferInstance
    split_ifs with hlt
    · exact BitVec.le_of_lt hlt
    · exact BitVec.le_refl _
  · infer_instance

end StableJob

end Stratum
end EtcMiner
