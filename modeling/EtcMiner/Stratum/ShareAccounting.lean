/-
# The answers to submissions

The share responses of `EthStratumClient::processResponse`
(`libpool/stratum/EthStratumClient.cpp`).  `submitSolution` sends a solution of miner `m` with
the id `40 + m`, and the response with that id takes a plea off the queue and calls
`m_onSolutionAccepted` or `m_onSolutionRejected` for the miner.

Before the id is looked at, `processError` renders the `error` member to text, and
`asString()` throws on an array or an object inside it; in EthereumStratum/2.0.0 the branch
reads `error["code"]`, which throws if `error` is not an object.  The line loop swallows the
exception.  A response is accounted exactly when the library renders what is asked of its
`error` (`share_accounted_iff`), whatever the `result` is: `nestedError` is not.
-/

import EtcMiner.Lib.Run
import EtcMiner.Stratum.Frame

namespace EtcMiner
namespace Stratum

open Common Eth Lib

/-- What happens in a session: a solution is submitted, something is received, or something
that leaves `m_solution_submitted_max_id` alone. -/
inductive ShareEvent where
  | submit (now : ℤ) (solution : Solution)
  | receive (now : ℤ) (rxMessage : List Char)
  | other (f : Client → Client) (h : ∀ c, (f c).solutionSubmittedMaxId = c.solutionSubmittedMaxId)

/-- One step of a session. -/
def ShareEvent.next (rt : Runtime) (c : Client) : ShareEvent → Client
  | .submit now solution => final (submitSolution now solution) c
  | .receive now rxMessage => final (onRecvSocketDataCompleted rt now rxMessage) c
  | .other f _ => f c

/-- Miner `m` has submitted a solution in the session `es`. -/
def Submitted (rt : Runtime) (c : Client) (es : List ShareEvent) (m : ℕ) : Prop :=
  ∃ before now solution after, es = before ++ .submit now solution :: after ∧ solution.midx = m ∧
    isAuthorized (run (ShareEvent.next rt) c before) = true

/-- The id of the responses to miner `m`. -/
def shareId (m : ℕ) : BitVec 32 := 40 + BitVec.ofNat 32 m

section Session

variable {rt : Runtime}

/-- Nothing in a session lowers `m_solution_submitted_max_id`. -/
instance (id : BitVec 32) : StableJob (fun c => id ≤ c.solutionSubmittedMaxId)
    fun _ c => id ≤ c.solutionSubmittedMaxId where
  stdException h := h
  nullSession h _ := h
  effects h _ := h
  session h _ := h
  currentTimestamp h _ := h
  authpending h _ := h
  pleas h _ := h
  unrecoverable h := h
  confirmed h := h
  foreignException h := h
  caught h := h
  current h _ := h
  newjobprocessed h _ := h
  message h _ := h
  solutionSubmittedMaxId h _ hv := BitVec.le_trans h hv

theorem ShareEvent.le_maxId_next {id : BitVec 32} {c : Client} (h : id ≤ c.solutionSubmittedMaxId)
    (e : ShareEvent) : id ≤ (e.next rt c).solutionSubmittedMaxId := by
  cases e with
  | submit now solution =>
    have hkeeps : Preserves (fun c : Client => id ≤ c.solutionSubmittedMaxId) (submitSolution now solution) :=
      inferInstance
    exact hkeeps.final h
  | receive now rxMessage =>
    have hkeeps : Preserves (fun c : Client => id ≤ c.solutionSubmittedMaxId)
        (onRecvSocketDataCompleted rt now rxMessage) := inferInstance
    exact hkeeps.final h
  | other f hf =>
    show id ≤ (f c).solutionSubmittedMaxId
    rwa [hf]

/-- A submission raises it to the id of the miner. -/
theorem le_maxId_submitSolution {c : Client} (hauth : isAuthorized c = true) (now : ℤ)
    (solution : Solution) :
    shareId solution.midx ≤ (final (submitSolution now solution) c).solutionSubmittedMaxId := by
  unfold submitSolution
  rw [final_get_bind, if_neg (not_not.2 hauth), final_modify_bind]
  have hkeeps : Preserves (fun c : Client => shareId solution.midx ≤ c.solutionSubmittedMaxId) (do
      let jReq ← expect (submitRequest c.conn (← session) (40 + BitVec.ofNat 32 solution.midx) solution)
      enqueueResponsePlea now
      send jReq) := inferInstance
  refine hkeeps.final ?_
  show shareId solution.midx ≤ if c.solutionSubmittedMaxId < shareId solution.midx then shareId solution.midx
    else c.solutionSubmittedMaxId
  split_ifs with hlt
  · exact BitVec.le_refl _
  · exact BitVec.not_lt.1 hlt

theorem le_maxId_of_submitted {c : Client} {es : List ShareEvent} {m : ℕ} (h : Submitted rt c es m) :
    shareId m ≤ (run (ShareEvent.next rt) c es).solutionSubmittedMaxId := by
  obtain ⟨before, now, solution, after, rfl, rfl, hauth⟩ := h
  have hsubmit := le_maxId_submitSolution hauth now solution
  have hrun : run (ShareEvent.next rt) c (before ++ .submit now solution :: after) =
      run (ShareEvent.next rt) (final (submitSolution now solution) (run (ShareEvent.next rt) c before)) after :=
    List.foldl_append
  rw [hrun]
  exact @Along.run_inv _ _ _ (fun _ _ => True) _
    (fun c : Client => shareId solution.midx ≤ c.solutionSubmittedMaxId) hsubmit
    (fun _ e h _ => ShareEvent.le_maxId_next h e) after (along_of_forall (fun _ _ => trivial) after)

end Session

namespace Json

/-- `asString()` does not throw. -/
def isScalar : Json → Bool
  | .arr _ => false
  | .obj _ => false
  | _ => true

/-- `processError` does not throw: it calls `asString()` for the elements of an array and the
members of an object. -/
def isPrintable : Json → Bool
  | .arr xs => xs.all isScalar
  | .obj members => members.all fun member => member.2.isScalar
  | _ => true

/-- What a share response asks of its `error` does not throw. -/
def Rendered (mode : ℕ) (error : Json) : Prop :=
  error.empty = true ∨ error.isPrintable = true ∧ (mode = ETHEREUMSTRATUM2 → error.isObject = true)

theorem isSome_asString (valueToString : ℚ → List Char) (v : Json) :
    (v.asString valueToString).isSome = v.isScalar := by
  cases v <;> rfl

end Json

/-- The `error` of a message. -/
def errorOf (members : List (List Char × Json)) : Json := (Json.find "error" members).getD .null

/-- A callback for miner `m`. -/
def Effect.IsVerdict (m : ℕ) : Effect → Prop
  | .onSolutionAccepted _ minerIndex _ => minerIndex = BitVec.ofNat 32 m
  | .onSolutionRejected _ minerIndex => minerIndex = BitVec.ofNat 32 m
  | _ => False

/-- From `c` to `c'` one plea was taken off the queue and one callback was called, for miner
`m`. -/
def Accounted (now : ℤ) (m : ℕ) (c c' : Client) : Prop :=
  c'.pleas = (c.pleas.dequeue now).1 ∧ ∃ e : Effect, e.IsVerdict m ∧ c'.effects = c.effects ++ [e]

theorem Accounted.effects_ne {now : ℤ} {m : ℕ} {c c' : Client} (h : Accounted now m c c') :
    c'.effects ≠ c.effects := by
  obtain ⟨-, e, -, heffects⟩ := h
  rw [heffects]
  simp

section Response

variable {rt : Runtime} {now : ℤ} {members : List (List Char × Json)} {m : ℕ}

theorem isSome_errorText (members : List (List Char × Json)) :
    (errorText rt members).isSome = members.all fun member => member.2.isScalar := by
  induction members with
  | nil => rfl
  | cons member members ih =>
    obtain ⟨name, v⟩ := member
    rw [List.all_cons, ← ih, ← Json.isSome_asString rt.valueToString v, errorText]
    cases v.asString rt.valueToString with
    | none => rfl
    | some s => cases errorText rt members <;> rfl

/-- `processError` throws exactly for an `error` that is not printable. -/
theorem isSome_processError : (processError rt (.obj members)).isSome = (errorOf members).isPrintable := by
  have hget : Json.get (.obj members) "error" .null = some (errorOf members) := rfl
  unfold processError
  rw [hget]
  cases errorOf members with
  | arr xs =>
    show (errorText rt (xs.map fun v => ([], v))).isSome = xs.all Json.isScalar
    rw [isSome_errorText, List.all_map]
    rfl
  | obj ms =>
    show (errorText rt (ms.map fun member => (member.1 ++ ":".toList, member.2))).isSome =
      ms.all fun member => member.2.isScalar
    rw [isSome_errorText, List.all_map]
    rfl
  | _ => rfl

/-- The header of a response. -/
theorem retrieve_response {id : Json} {i : BitVec 32} (hid : Json.find "id" members = some id)
    (hvalue : id.asUInt = some i) (hmethod : Json.find "method" members = none)
    (hjsonrpc : Json.find "jsonrpc" members = none) :
    retrieve rt (.obj members) = if (errorOf members).empty then some ⟨1, i, true, [], []⟩
      else (processError rt (.obj members)).map fun errReason => ⟨1, i, false, errReason, []⟩ := by
  have hmember : Json.isMember (.obj members) "jsonrpc" = some false := by
    rw [Json.isMember, Json.members?, Option.map_some, hjsonrpc]
    rfl
  have hidGet : Json.get (.obj members) "id" (.int 0) = some id := by
    rw [Json.get, Json.members?, Option.map_some, hid]
    rfl
  have hmethodGet : Json.get (.obj members) "method" (.text "") = some (.str []) := by
    rw [Json.get, Json.members?, Option.map_some, hmethod]
    rfl
  have herror : Json.get (.obj members) "error" .null = some (errorOf members) := rfl
  unfold retrieve
  rw [hmember, hidGet, herror, hmethodGet]
  simp only [bind, Option.bind, hvalue]
  cases (errorOf members).empty with
  | true => rfl
  | false => cases processError rt (.obj members) <;> rfl

theorem expect_some {α : Type} (a : α) (c : Client) : expect (some a) c = .ok a c := rfl

theorem expect_none {α : Type} (c : Client) : expect (none : Option α) c = .error .stdException c := rfl

theorem stratumMode_run (c : Client) : stratumMode c = .ok c.conn.stratumMode c := rfl

theorem dequeueResponsePlea_run (c : Client) : dequeueResponsePlea now c =
    .ok (c.pleas.dequeue now).2 { c with pleas := (c.pleas.dequeue now).1 } := rfl

/-- A response with a share id goes to the share branch. -/
theorem final_processResponse_share {c : Client} {h : Header} (hheader : retrieve rt (.obj members) = some h)
    (hrpc : h.rpcVer = 1) (hmethod : h.method = []) (h40 : 40 ≤ h.id) (hmax : h.id ≤ c.solutionSubmittedMaxId) :
    final (processResponse rt now (.obj members)) c =
      final (submitResponse rt now h (.obj members) ((Json.find "result" members).getD .null)) c := by
  have hne (k : BitVec 32) (hk : k < 40) : h.id ≠ k := by
    rintro rfl
    exact BitVec.not_le.2 hk h40
  have hnotification : h.isNotification = false := by
    have hzero : h.id ≠ 0 := hne 0 (by decide)
    simpa [Header.isNotification, hmethod] using hzero
  have hmethodOf : methodOf c.conn.stratumMode h (.obj members) = some [] := by
    simp [methodOf, hnotification, hmethod, Json.member, Json.get, Json.members?]
  have hinsane : insane h (.obj members) = some false := by
    simp [insane, hnotification, hrpc, Json.member, Json.get, Json.members?]
  have hdispatch : processResponse rt now (.obj members) c = dispatch rt now h [] (.obj members) c := by
    unfold processResponse
    rw [hheader, run_bind_of_ok (expect_some h c), run_bind_of_ok (stratumMode_run c), hmethodOf,
      run_bind_of_ok (expect_some [] c), hinsane, run_bind_of_ok (expect_some false c)]
    rfl
  have hhandle : handleResponse rt now h (.obj members) c =
      (submitResponse rt now h (.obj members) ((Json.find "result" members).getD .null) >>= fun _ => pure false) c := by
    unfold handleResponse
    change (if h.id = 1 then _ else _ : ClientM Bool) c = _
    rw [if_neg (hne 1 (by decide)), if_neg (hne 2 (by decide)), if_neg (hne 3 (by decide)), if_pos ⟨h40, hmax⟩]
  unfold final
  rw [hdispatch, dispatch, if_neg (by simp [hnotification])]
  cases hsubmit : submitResponse rt now h (.obj members) ((Json.find "result" members).getD .null) c with
  | ok u c' =>
    rw [run_bind_of_ok (hhandle.trans (run_bind_of_ok hsubmit _)), run_get_bind, if_neg (by simp)]
    rfl
  | error e c' => rw [run_bind_of_error (hhandle.trans (run_bind_of_error hsubmit _))]

/-- The share branch accounts for a response unless it looks for an error code and an exception
is thrown. -/
theorem accounted_submitResponse_iff {c : Client} {h : Header} (hid : h.id = shareId m) (jResult : Json) :
    Accounted now m c (final (submitResponse rt now h (.obj members) jResult) c) ↔
      (c.conn.stratumMode = ETHEREUMSTRATUM2 → h.isSuccess = false →
        ∃ code, (errorOf members).get "code" (.text "") = some code ∧ code.isScalar = true) := by
  have hindex : h.id - 40 = BitVec.ofNat 32 m := by
    rw [hid, shareId]
    rw [BitVec.add_comm, BitVec.add_sub_cancel]
  have hemit (e : Effect) (he : e.IsVerdict m) : Accounted now m c
      (final (emit e) { c with pleas := (c.pleas.dequeue now).1 }) := ⟨rfl, e, he, rfl⟩
  unfold submitResponse
  rw [final_bind_of_ok (stratumMode_run c), final_bind_of_ok (dequeueResponsePlea_run c), hindex]
  by_cases hmode : c.conn.stratumMode = ETHEREUMSTRATUM2
  · rw [if_neg (not_not.2 hmode)]
    by_cases hsuccess : h.isSuccess = true
    · rw [if_pos hsuccess]
      exact iff_of_true (hemit _ rfl) fun _ hfail => absurd hsuccess (by simp [hfail])
    · have hmember : Json.member (.obj members) "error" = some (errorOf members) := rfl
      rw [if_neg hsuccess, hmember, final_bind_of_ok (expect_some _ _)]
      cases hget : (errorOf members).get "code" (.text "") with
      | none =>
        rw [final_bind_of_error (expect_none _)]
        refine iff_of_false (fun h => h.effects_ne rfl) fun hcode => ?_
        obtain ⟨code, hsome, -⟩ := hcode hmode (eq_false_of_ne_true hsuccess)
        cases hsome
      | some code =>
        rw [final_bind_of_ok (expect_some _ _), asString]
        have hscalar := Json.isSome_asString rt.valueToString code
        cases htext : code.asString rt.valueToString with
        | none =>
          rw [htext] at hscalar
          rw [final_bind_of_error (expect_none _)]
          refine iff_of_false (fun h => h.effects_ne rfl) fun hcode => ?_
          obtain ⟨code', hsome, hscalar'⟩ := hcode hmode (eq_false_of_ne_true hsuccess)
          cases hsome
          rw [hscalar'] at hscalar
          cases hscalar
        | some errCode =>
          rw [htext] at hscalar
          rw [final_bind_of_ok (expect_some _ _)]
          refine iff_of_true ?_ fun _ _ => ⟨code, rfl, hscalar.symm⟩
          split_ifs
          · exact hemit _ rfl
          · exact hemit _ rfl
  · rw [if_pos hmode]
    refine iff_of_true ?_ fun hmode' => absurd hmode' hmode
    split_ifs
    · exact hemit _ rfl
    · exact hemit _ rfl

end Response

theorem shareId_eq (m : ℕ) : shareId m = BitVec.ofNat 32 (40 + m) := (BitVec.ofNat_add 40 m).symm

/-- The id of a response to miner `m`, as an integer or as a `double`. -/
theorem asUInt_shareId {id : Json} {m : ℕ} (hid : id = .int (40 + m) ∨ id = .real (40 + m)) :
    id.asUInt = if 40 + m < 2 ^ 32 then some (shareId m) else none := by
  have hofInt : BitVec.ofInt 32 (40 + m) = shareId m := by
    rw [shareId_eq, ← BitVec.ofInt_natCast]
    rfl
  obtain rfl | rfl := hid
  · simp only [Json.asUInt, hofInt]
    exact if_congr ⟨fun h => by omega, fun h => by omega⟩ rfl rfl
  · have hfloor : ⌊(40 + m : ℚ)⌋ = 40 + (m : ℤ) := by
      exact_mod_cast Int.floor_natCast (R := ℚ) (40 + m)
    have hle : (40 + m : ℚ) ≤ 2 ^ 32 - 1 ↔ 40 + m < 2 ^ 32 := by
      rw [le_sub_iff_add_le]
      exact_mod_cast Iff.rfl
    have hnonneg : (0 : ℚ) ≤ 40 + m := by positivity
    simp only [Json.asUInt, hfloor, hofInt]
    exact if_congr ⟨fun h => hle.1 h.2, fun h => ⟨hnonneg, hle.2 h⟩⟩ rfl rfl

theorem le_shareId {m : ℕ} (hm : 40 + m < 2 ^ 32) : 40 ≤ shareId m := by
  rw [BitVec.le_def, shareId_eq, BitVec.toNat_ofNat, Nat.mod_eq_of_lt hm]
  exact Nat.le_add_right 40 m

theorem Json.mem_of_find {key : String} {members : List (List Char × Json)} {v : Json}
    (h : Json.find key members = some v) : ∃ name, (name, v) ∈ members := by
  induction members with
  | nil => cases h
  | cons member members ih =>
    obtain ⟨name, w⟩ := member
    rw [Json.find] at h
    split_ifs at h with hname
    · exact ⟨name, by simp [Option.some.inj h]⟩
    · obtain ⟨name', hmem⟩ := ih h
      exact ⟨name', List.mem_cons_of_mem _ hmem⟩

/-- A printable error has a code if it is an object. -/
theorem exists_code_iff {error : Json} (hprintable : error.isPrintable = true) (hempty : error.empty = false) :
    (∃ code, error.get "code" (.text "") = some code ∧ code.isScalar = true) ↔ error.isObject = true := by
  cases error with
  | null => cases hempty
  | obj members =>
    refine iff_of_true ⟨(Json.find "code" members).getD (.text ""), rfl, ?_⟩ rfl
    cases hfind : Json.find "code" members with
    | none => rfl
    | some v =>
      obtain ⟨name, hmem⟩ := Json.mem_of_find hfind
      exact List.all_eq_true.1 hprintable _ hmem
  | _ => exact iff_of_false (fun ⟨_, hget, _⟩ => nomatch hget) nofun

/-- **A response to a share is accounted** for the miner that submitted it exactly when the
library renders what is asked of its `error`.  The first condition says that the id does not
wrap around. -/
theorem share_accounted_iff (rt : Runtime) (c₀ : Client) (es : List ShareEvent) (m : ℕ)
    (hsubmitted : Submitted rt c₀ es m) (now : ℤ) (members : List (List Char × Json)) (id : Json)
    (hid : Json.find "id" members = some id) (hvalue : id = .int (40 + m) ∨ id = .real (40 + m))
    (hmethod : Json.find "method" members = none) (hjsonrpc : Json.find "jsonrpc" members = none) :
    let c := run (ShareEvent.next rt) c₀ es
    Accounted now m c (final (processResponse rt now (.obj members)) c) ↔
      40 + m < 2 ^ 32 ∧ (errorOf members).Rendered c.conn.stratumMode := by
  intro c
  have hmax : shareId m ≤ c.solutionSubmittedMaxId := le_maxId_of_submitted hsubmitted
  have hUInt := asUInt_shareId hvalue
  -- an exception that comes before the branch leaves the client as it was
  have hthrow (hnone : retrieve rt (.obj members) = none) :
      ¬ Accounted now m c (final (processResponse rt now (.obj members)) c) := by
    unfold processResponse
    rw [hnone, final_bind_of_error (expect_none c)]
    exact fun h => h.effects_ne rfl
  have hshare (h : Header) (hheader : retrieve rt (.obj members) = some h) (hrpc : h.rpcVer = 1)
      (hmethod : h.method = []) (hheaderId : h.id = shareId m) (hlt : 40 + m < 2 ^ 32) :
      Accounted now m c (final (processResponse rt now (.obj members)) c) ↔
        (c.conn.stratumMode = ETHEREUMSTRATUM2 → h.isSuccess = false →
          ∃ code, (errorOf members).get "code" (.text "") = some code ∧ code.isScalar = true) := by
    rw [final_processResponse_share hheader hrpc hmethod (hheaderId ▸ le_shareId hlt) (hheaderId ▸ hmax)]
    exact accounted_submitResponse_iff hheaderId _
  by_cases hlt : 40 + m < 2 ^ 32
  · rw [if_pos hlt] at hUInt
    have hretrieve : retrieve rt (.obj members) = _ := retrieve_response hid hUInt hmethod hjsonrpc
    by_cases hempty : (errorOf members).empty = true
    · rw [if_pos hempty] at hretrieve
      rw [hshare _ hretrieve rfl rfl rfl hlt]
      exact iff_of_true (fun _ hfail => nomatch hfail) ⟨hlt, .inl hempty⟩
    · rw [if_neg hempty] at hretrieve
      have hprintable : (processError rt (.obj members)).isSome = _ := isSome_processError
      cases herror : processError rt (.obj members) with
      | none =>
        rw [herror] at hretrieve hprintable
        refine iff_of_false (hthrow hretrieve) fun hrendered => ?_
        obtain hnil | ⟨hprint, -⟩ := hrendered.2
        · exact hempty hnil
        · rw [hprint] at hprintable
          cases hprintable
      | some errReason =>
        rw [herror] at hretrieve hprintable
        rw [hshare _ hretrieve rfl rfl rfl hlt, exists_code_iff hprintable.symm (eq_false_of_ne_true hempty)]
        exact ⟨fun h => ⟨hlt, .inr ⟨hprintable.symm, fun hmode => h hmode rfl⟩⟩,
          fun h hmode _ => (h.2.resolve_left hempty).2 hmode⟩
  · rw [if_neg hlt] at hUInt
    refine iff_of_false (hthrow ?_) fun h => hlt h.1
    unfold retrieve
    have hidGet : Json.get (.obj members) "id" (.int 0) = some id := by
      rw [Json.get, Json.members?, Option.map_some, hid]
      rfl
    rw [hidGet]
    simp only [bind, Option.bind, hUInt]
    cases Json.isMember (.obj members) "jsonrpc" <;> rfl

/-- Nothing is printed or parsed. -/
def shareRuntime : Runtime where
  parse _ := none
  valueToString _ := []
  lexicalCast _ := []
  toDouble q := q
  projectNameWithVersion := []

/-- A session of mode 0. -/
def authorizedClient : Client where
  conn := { stratumMode := STRATUM, stratumModeConfirmed := true }
  session := some { subscribed := true, authorized := true }
  pleas := { older := 0 }

/-- Miner 2 submits a solution. -/
def minerTwo : List ShareEvent := [.submit 5 { nonce := 0, mixHash := fun _ => 0, work := {}, midx := 2 }]

theorem submitted_minerTwo : Submitted shareRuntime authorizedClient minerTwo 2 :=
  ⟨[], 5, _, [], rfl, rfl, rfl⟩

/-- A response to miner 2 with an error, which has further members `more`. -/
def jobNotFound (more : List (List Char × Json)) : List (List Char × Json) :=
  [("id".toList, .int 42), ("result".toList, .null), ("error".toList, .obj
    ([("code".toList, .int 21), ("message".toList, .text "Job not found")] ++ more))]

theorem share_accounted_iff_jobNotFound :
    let c := run (ShareEvent.next shareRuntime) authorizedClient minerTwo
    Accounted 9 2 c (final (processResponse shareRuntime 9 (.obj (jobNotFound []))) c) :=
  (share_accounted_iff shareRuntime authorizedClient minerTwo 2 submitted_minerTwo 9 (jobNotFound []) (.int 42)
    rfl (.inl rfl) rfl rfl).2 ⟨by decide, .inr ⟨rfl, fun _ => rfl⟩⟩

/-- **A rejection that is lost**: the error has the optional member `data`, an object.  No callback
is called and the plea stays in the queue. -/
theorem nestedError_not_accounted :
    let c := run (ShareEvent.next shareRuntime) authorizedClient minerTwo
    Submitted shareRuntime authorizedClient minerTwo 2 ∧
      ¬ Accounted 9 2 c (final (processResponse shareRuntime 9
        (.obj (jobNotFound [("data".toList, .obj [])]))) c) := by
  refine ⟨submitted_minerTwo, fun ⟨_, e, _, heffects⟩ => ?_⟩
  have hlength := congrArg List.length heffects
  revert hlength
  rw [List.length_append, List.length_singleton]
  decide +kernel

end Stratum
end EtcMiner
