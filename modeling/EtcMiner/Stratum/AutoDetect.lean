/-
# Stratum auto-detection

A URI that leaves the stratum version open (version 999) is tried in the modes 3, 2, 1 and 0:
`connect_handler` in `libpool/stratum/EthStratumClient.cpp` begins with 3, and
`disconnect_finalize` lowers the mode each time a connection is torn down that the pool has
accepted and whose mode is not confirmed, and posts the next attempt.

The modes of the login requests descend strictly, and the fourth step of the descent gives
the connection up (`autoDetection_descends`).  Two invariants carry this.  `Descending` is
about the numbers: the requests, the mode and the steps made.  `Orderly` is about the
attempts: at most one is under way, no handler that starts another one waits behind its
completion, and while one can still come the mode is below all requests made.

That a mode is lowered does not mean that it was tried.  Once the pool has accepted a
connection, every attempt that fails lowers the mode as well, without a login
(`refusedRun_gives_up`).  If the mode is lowered only after its login request was sent, all
four have been sent when the client gives up (`gives_up_after_all_modes`).
-/

import EtcMiner.Stratum.Watchdog

namespace EtcMiner
namespace Stratum

open Common Eth Lib Pool

namespace Link

variable {l l' l'' : Link} {now : ℤ} {k : Kind} {h : Handler} {queue : List Handler}

/-- `m_conn->StratumModeConfirmed()`. -/
def confirmed (l : Link) : Bool := l.client.conn.stratumModeConfirmed

/-- `m_conn->IsUnrecoverable()`. -/
def unrecoverable (l : Link) : Bool := l.client.conn.unrecoverable

/-- The host is being resolved. -/
def resolving (l : Link) : Prop := l.resolveOp = true ∨ Kind.resolveHandler ∈ l.kinds

/-- The numbers of the descent: the login requests so far, the mode and the steps made. -/
structure Descending (l : Link) : Prop where
  version : l.uri.version = 999
  sorted : l.confirmed = false → l.requests.Pairwise (· > ·)
  bounds : l.confirmed = false → ∀ m ∈ l.requests, m ≤ 3 ∧ l.mode ≤ m
  steps : l.mode = 999 ∧ l.modeSteps = 0 ∨ l.mode + l.modeSteps = 3 ∨
    l.unrecoverable = true ∧ l.mode = 0 ∧ l.modeSteps = 4 ∧ Callback.onDisconnected ∈ l.raised
  begun : l.responds = true → l.mode = 999 → l.unrecoverable = true ∨ l.confirmed = true
  silent : l.responds = false → l.requests = []

/-- The attempts to connect: at most one is under way, and those that can still come are in a
mode that no login request was made in. -/
structure Orderly (l : Link) : Prop where
  attempt : l.kinds.count .connectHandler + l.connectOp.toNat = l.connecting.toNat
  ahead : l.socket ≠ .null → l.kinds.Pairwise fun a b => a = .connectHandler → b ≠ .startConnect
  once : l.kinds.count .resolveHandler + l.resolveOp.toNat ≤ 1
  resolving : l.resolving → l.responds = false ∧ l.connecting = false ∧ Kind.startConnect ∉ l.kinds
  lower : l.confirmed = false → Kind.startConnect ∈ l.kinds ∨ l.connecting = true →
    ∀ m ∈ l.requests, l.mode < m

/-- `connect` has not been called. -/
structure Idle (l : Link) : Prop where
  responds : l.responds = false
  connecting : l.connecting = false
  startConnect : Kind.startConnect ∉ l.kinds
  resolving : ¬ l.resolving

section Plain

/-- The way from `l` to `l'` starts no attempt and ends none. -/
structure Plain (l l' : Link) : Prop where
  uri : l'.uri = l.uri
  connSet : l'.connSet = true → l.connSet = true
  responds : l'.responds = l.responds
  connecting : l'.connecting = l.connecting
  resolveOp : l'.resolveOp = l.resolveOp
  socket : l'.socket ≠ .null → l.socket ≠ .null
  attempts : l'.attempts = l.attempts
  modeSteps : l'.modeSteps = l.modeSteps
  mode : l'.mode = l.mode
  confirmed : l.confirmed = true → l'.confirmed = true
  unrecoverable : l.unrecoverable = true → l'.unrecoverable = true
  requests : l'.requests.Sublist l.requests
  logins : l.logins <+: l'.logins
  raised : l.raised <+: l'.raised
  handlers : ∃ ks, l'.kinds = l.kinds ++ ks ∧ (∀ k ∈ ks, k ≠ .startConnect ∧ k ≠ .resolveHandler) ∧
    ks.count .connectHandler + l'.connectOp.toNat = l.connectOp.toNat

theorem Plain.refl (l : Link) : Plain l l where
  uri := rfl
  connSet := id
  responds := rfl
  connecting := rfl
  resolveOp := rfl
  socket := id
  attempts := rfl
  modeSteps := rfl
  mode := rfl
  confirmed := id
  unrecoverable := id
  requests := List.Sublist.refl _
  logins := List.prefix_rfl
  raised := List.prefix_rfl
  handlers := ⟨[], by simp, by simp, by simp⟩

theorem Plain.trans (h : Plain l l') (h' : Plain l' l'') : Plain l l'' where
  uri := h'.uri.trans h.uri
  connSet hc := h.connSet (h'.connSet hc)
  responds := h'.responds.trans h.responds
  connecting := h'.connecting.trans h.connecting
  resolveOp := h'.resolveOp.trans h.resolveOp
  socket hs := h.socket (h'.socket hs)
  attempts := h'.attempts.trans h.attempts
  modeSteps := h'.modeSteps.trans h.modeSteps
  mode := h'.mode.trans h.mode
  confirmed hc := h'.confirmed (h.confirmed hc)
  unrecoverable hu := h'.unrecoverable (h.unrecoverable hu)
  requests := h'.requests.trans h.requests
  logins := h.logins.trans h'.logins
  raised := h.raised.trans h'.raised
  handlers := by
    obtain ⟨ks, hkinds, hks, hop⟩ := h.handlers
    obtain ⟨ks', hkinds', hks', hop'⟩ := h'.handlers
    refine ⟨ks ++ ks', by rw [hkinds', hkinds, List.append_assoc], fun k hk => ?_, ?_⟩
    · exact (List.mem_append.1 hk).elim (hks k) (hks' k)
    · rw [List.count_append]
      omega

theorem Quiet.plain (h : Quiet l l') : Plain l l' where
  uri := h.uri
  connSet hc := h.connSet ▸ hc
  responds := h.responds
  connecting := h.connecting
  resolveOp := h.resolveOp
  socket hs := h.socket ▸ hs
  attempts := h.attempts
  modeSteps := h.modeSteps
  mode := h.mode
  confirmed := h.confirmed
  unrecoverable := h.unrecoverable
  requests := h.requests
  logins := h.logins
  raised := by
    obtain ⟨cs, hraised, -⟩ := h.raised
    exact hraised ▸ List.prefix_append _ _
  handlers := by
    obtain ⟨ks, hkinds, hks⟩ := h.queue
    refine ⟨ks, hkinds, fun k hk => ?_, ?_⟩
    · constructor
      all_goals
        rintro rfl
        exact absurd (hks _ hk) (by decide)
    · have hnone : ks.count .connectHandler = 0 := by
        rw [List.count_eq_zero]
        exact fun hk => absurd (hks _ hk) (by decide)
      rw [hnone, h.connectOp, Nat.zero_add]

/-- What only appends handlers of other kinds to the queue. -/
theorem Plain.of_append (hs : List Handler) (h : Plain l { l' with queue := l.queue })
    (hqueue : l'.queue = l.queue ++ hs)
    (hhs : ∀ h ∈ hs, h.kind ≠ .startConnect ∧ h.kind ≠ .resolveHandler ∧ h.kind ≠ .connectHandler) :
    Plain l l' := by
  refine { h with handlers := ⟨hs.map Handler.kind, ?_, fun k hk => ?_, ?_⟩ }
  · rw [kinds, kinds, hqueue, List.map_append]
  · obtain ⟨h, hmem, rfl⟩ := List.mem_map.1 hk
    exact ⟨(hhs h hmem).1, (hhs h hmem).2.1⟩
  · have hnone : (hs.map Handler.kind).count .connectHandler = 0 := by
      rw [List.count_eq_zero]
      intro hk
      obtain ⟨h, hmem, hkind⟩ := List.mem_map.1 hk
      exact (hhs h hmem).2.2 hkind
    obtain ⟨ks, hkinds, -, hop⟩ := h.handlers
    obtain rfl : ks = [] := by simpa [kinds] using hkinds
    rw [hnone]
    exact hop

theorem Plain.of_posted {h : Handler}
    (hk : h.kind ≠ .startConnect ∧ h.kind ≠ .resolveHandler ∧ h.kind ≠ .connectHandler)
    (hplain : Plain l { l' with queue := l.queue }) (hqueue : l'.queue = l.queue ++ [h]) : Plain l l' := by
  refine hplain.of_append [h] hqueue fun h' hh => ?_
  obtain rfl := List.mem_singleton.1 hh
  exact hk

/-- The attempt under way is aborted with the other operations on the socket. -/
theorem plain_cancelled (l : Link) : Plain l l.cancelled := by
  refine { Plain.refl l with handlers := ⟨l.aborted.map Handler.kind, ?_, fun k hk => ?_, ?_⟩ }
  · exact List.map_append
  · unfold aborted at hk
    grind [Handler.kind]
  · unfold aborted cancelled
    cases l.connectOp <;> cases l.readOp <;> cases l.writeOp <;> rfl

theorem plain_closed {s : Socket} (hs : s = .null ∨ l.socket ≠ .null) : Plain l (l.closed s) := by
  refine (plain_cancelled l).trans (Plain.of_append (if l.shutdownOp then [.onSSLShutdownCompleted] else [])
    { Plain.refl l.cancelled with socket := fun h => ?_ } rfl fun h hh => ?_)
  · exact hs.resolve_left h
  · split_ifs at hh
    · obtain rfl := List.mem_singleton.1 hh
      decide
    · exact nomatch hh

theorem plain_torn (l : Link) : Plain l l.torn := by
  have hclosed : Plain l (l.closed .null) := plain_closed (.inl rfl)
  exact { hclosed with }

theorem plain_finished (now : ℤ) (l : Link) : Plain l (l.finished now) := by
  refine Plain.of_append (if l.timer = .idle then [] else [.workloopTimerElapsed true])
    { Plain.refl l with raised := List.prefix_append _ _, connSet := fun h => nomatch h } ?_ fun h hh => ?_
  · unfold Link.finished
    split_ifs
    · exact (List.append_nil _).symm
    · rfl
  · split_ifs at hh
    · exact nomatch hh
    · obtain rfl := List.mem_singleton.1 hh
      decide

theorem plain_shuttingDown (now : ℤ) (l : Link) : Plain l (l.shuttingDown now) := by
  have hcancelled : Plain l l.cancelled := plain_cancelled l
  exact { hcancelled with }

end Plain

section Descending

theorem eq_false_of_imp {a b : Bool} (h : a = true → b = true) (hb : b = false) : a = false := by
  cases a with
  | false => rfl
  | true => exact nomatch hb.symm.trans (h rfl)

theorem Descending.plain (hl : l.Descending) (h : Plain l l') : l'.Descending where
  version := h.uri ▸ hl.version
  sorted hc := by
    have hconf : l.confirmed = false := eq_false_of_imp h.confirmed hc
    exact (hl.sorted hconf).sublist h.requests
  bounds hc m hm := by
    have hconf : l.confirmed = false := eq_false_of_imp h.confirmed hc
    rw [h.mode]
    exact hl.bounds hconf m (h.requests.subset hm)
  steps := by
    rw [h.mode, h.modeSteps]
    rcases hl.steps with hstart | hdown | ⟨hunrec, hmode, hsteps, hraised⟩
    · exact .inl hstart
    · exact .inr (.inl hdown)
    · exact .inr (.inr ⟨h.unrecoverable hunrec, hmode, hsteps, h.raised.subset hraised⟩)
  begun hresponds hmode :=
    (hl.begun (h.responds ▸ hresponds) (h.mode ▸ hmode)).imp h.unrecoverable h.confirmed
  silent hresponds := by
    have hnone := hl.silent (h.responds ▸ hresponds)
    have hsub := h.requests
    rw [hnone, List.sublist_nil] at hsub
    exact hsub

theorem plain_refused (l : Link) : Plain l l.refused := by
  unfold refused
  split_ifs with hopened
  · exact plain_closed (.inr (by simp [hopened]))
  · exact Plain.refl l

section LoggingIn

variable (now) (hversion : l.uri.version = 999)

include hversion

/-- The mode of a connection that the pool accepts. -/
theorem selectMode_of_auto :
    selectMode l.uri l.client.conn =
      { l.client.conn with stratumMode := if l.confirmed = false ∧ l.mode = 999 then 3 else l.mode } := by
  unfold selectMode
  rw [if_neg (by omega)]
  simp only [Bool.not_eq_true]
  change (if l.confirmed = false ∧ l.mode = 999 then _ else _) = _
  split_ifs <;> rfl

theorem mode_loggingIn :
    (l.loggingIn now).mode = if l.confirmed = false ∧ l.mode = 999 then 3 else l.mode :=
  congrArg Conn.stratumMode (selectMode_of_auto hversion)

theorem confirmed_loggingIn : (l.loggingIn now).confirmed = l.confirmed := by
  change (selectMode l.uri l.client.conn).stratumModeConfirmed = _
  rw [selectMode_of_auto hversion]
  rfl

theorem unrecoverable_loggingIn : (l.loggingIn now).unrecoverable = l.unrecoverable := by
  change (selectMode l.uri l.client.conn).unrecoverable = _
  rw [selectMode_of_auto hversion]
  rfl

/-- A mode is selected unless one is confirmed. -/
theorem confirmed_of_loggingIn (hmode : (l.loggingIn now).mode = 999) : l.confirmed = true := by
  rw [mode_loggingIn now hversion] at hmode
  split_ifs at hmode with hstart
  · exact absurd hmode (by decide)
  · by_contra hne
    exact hstart ⟨by simpa using hne, hmode⟩

end LoggingIn

/-- In a descent the connection that is torn down has left mode 999. -/
theorem Descending.mode_add_modeSteps (hl : l.Descending) (hd : l.descends = true) :
    l.mode + l.modeSteps = 3 := by
  simp only [descends, Bool.and_eq_true, Bool.not_eq_true'] at hd
  obtain ⟨⟨hunrec, hconf⟩, hresponds⟩ := hd
  rcases hl.steps with ⟨hmode, -⟩ | hdown | ⟨hgone, -⟩
  · rcases hl.begun hresponds hmode with h | h
    · exact absurd (hunrec.symm.trans h) Bool.false_ne_true
    · exact absurd (hconf.symm.trans h) Bool.false_ne_true
  · exact hdown
  · exact absurd (hunrec.symm.trans hgone) Bool.false_ne_true

theorem Descending.lowered (hl : l.Descending) (hd : l.descends = true) (hmode : 0 < l.mode) :
    l.lowered.Descending := by
  have hsteps := hl.mode_add_modeSteps hd
  have htorn := hl.plain (plain_torn l)
  have hlowered : l.lowered.mode = l.mode - 1 := rfl
  refine { htorn with bounds := fun hc m hm => ?_, steps := .inr (.inl ?_), begun := fun _ h => ?_ }
  · obtain ⟨hle, hge⟩ := hl.bounds hc m hm
    exact ⟨hle, by omega⟩
  · change l.mode - 1 + (l.modeSteps + 1) = 3
    omega
  · omega

theorem Descending.finalized (hl : l.Descending) : (l.finalized now).Descending := by
  unfold Link.finalized
  split_ifs with hd hmode
  · exact hl.lowered hd hmode
  · have hsteps := hl.mode_add_modeSteps hd
    have htorn := hl.plain (plain_torn l)
    have hraised : Callback.onDisconnected ∈ (l.exhausted.finished now).raised :=
      List.mem_append_right _ List.mem_cons_self
    have hfour : l.modeSteps + 1 = 4 := by omega
    have hnomode : l.mode = 0 := by omega
    exact { htorn with
      steps := .inr (.inr ⟨rfl, hnomode, hfour, hraised⟩)
      begun := fun _ _ => .inl rfl }
  · exact (hl.plain (plain_torn l)).plain (plain_finished now _)

/-- A login request is made in the mode that is selected. -/
theorem Descending.loggingIn (hl : l.Descending) (hlower : l.confirmed = false → ∀ m ∈ l.requests, l.mode < m) :
    (l.loggingIn now).Descending := by
  have hmode := mode_loggingIn now hl.version
  have hconf := confirmed_loggingIn now hl.version
  have hlogins : l.logins.Sublist l.requests := List.sublist_append_left _ _
  have hsteps : (l.loggingIn now).modeSteps = l.modeSteps := rfl
  -- as long as the mode is open, the new request is below those before it
  have hnew (hc : l.confirmed = false) :
      (l.loggingIn now).mode ≤ 3 ∧ ∀ m ∈ l.logins, m ≤ 3 ∧ (l.loggingIn now).mode < m := by
    have hthree : (l.loggingIn now).mode ≤ 3 ∧ (l.loggingIn now).mode ≤ l.mode := by
      rw [hmode]
      split_ifs with hstart
      · omega
      · rcases hl.steps with ⟨h, -⟩ | h | ⟨-, h, -⟩
        · exact absurd ⟨hc, h⟩ hstart
        · omega
        · omega
    refine ⟨hthree.1, fun m hm => ?_⟩
    have hbound := (hl.bounds hc m (hlogins.subset hm)).1
    have hless := hlower hc m (hlogins.subset hm)
    omega
  refine { version := hl.version, sorted := fun hc => ?_, bounds := fun hc m hm => ?_, steps := ?_,
           begun := fun _ h => .inr (hconf.trans (confirmed_of_loggingIn now hl.version h)),
           silent := fun h => nomatch h }
  · obtain ⟨-, hbelow⟩ := hnew (hconf ▸ hc)
    refine List.pairwise_append.2
      ⟨(hl.sorted (hconf ▸ hc)).sublist hlogins, List.pairwise_singleton _ _, fun m hm n hn => ?_⟩
    rw [List.mem_singleton.1 hn]
    exact (hbelow m hm).2
  · obtain ⟨hthree, hbelow⟩ := hnew (hconf ▸ hc)
    rcases List.mem_append.1 hm with hm | hm
    · exact ⟨(hbelow m hm).1, (hbelow m hm).2.le⟩
    · rw [List.mem_singleton.1 hm]
      exact ⟨hthree, le_rfl⟩
  · have hunrec := unrecoverable_loggingIn now hl.version
    rw [hmode, hsteps, hunrec]
    split_ifs with hstart
    · rcases hl.steps with ⟨-, h⟩ | h | ⟨-, h, -⟩
      · exact .inr (.inl (by omega))
      · omega
      · omega
    · exact hl.steps

end Descending

section Orderly

theorem kinds_of_queue (hqueue : l.queue = h :: queue) :
    l.kinds = h.kind :: ({ l with queue := queue } : Link).kinds := by
  rw [kinds, hqueue]
  rfl

theorem Orderly.plain (hl : l.Orderly) (h : Plain l l') : l'.Orderly := by
  obtain ⟨ks, hkinds, hks, hop⟩ := h.handlers
  have hstart : Kind.startConnect ∉ ks := fun hk => (hks _ hk).1 rfl
  have hresolve : Kind.resolveHandler ∉ ks := fun hk => (hks _ hk).2 rfl
  have hmem : Kind.startConnect ∈ l'.kinds → Kind.startConnect ∈ l.kinds := by
    rw [hkinds, List.mem_append]
    exact fun h => h.resolve_right hstart
  constructor
  · have hattempt := hl.attempt
    rw [hkinds, List.count_append, h.connecting]
    omega
  · intro hsocket
    rw [hkinds, List.pairwise_append]
    refine ⟨hl.ahead (h.socket hsocket), List.pairwise_of_forall_mem_list fun a _ b hb _ => (hks b hb).1,
      fun a _ b hb _ => (hks b hb).1⟩
  · rw [hkinds, List.count_append, List.count_eq_zero.2 hresolve, h.resolveOp]
    exact hl.once
  · intro hresolving
    have hbefore : l.resolving := by
      refine hresolving.imp (fun hop => h.resolveOp ▸ hop) fun hk => ?_
      rw [hkinds, List.mem_append] at hk
      exact hk.resolve_right hresolve
    obtain ⟨hresponds, hconnecting, hno⟩ := hl.resolving hbefore
    exact ⟨h.responds.trans hresponds, h.connecting.trans hconnecting, fun hk => hno (hmem hk)⟩
  · intro hc hdue m hm
    have hconf : l.confirmed = false := eq_false_of_imp h.confirmed hc
    rw [h.mode]
    exact hl.lower hconf (hdue.imp hmem fun hcon => h.connecting ▸ hcon) m (h.requests.subset hm)

/-- A handler is taken off that does not complete an attempt. -/
theorem Orderly.pop (hl : l.Orderly) (hqueue : l.queue = h :: queue) (hk : h.kind ≠ .connectHandler) :
    ({ l with queue := queue } : Link).Orderly := by
  have hkinds := kinds_of_queue hqueue
  have hsub : ({ l with queue := queue } : Link).kinds.Sublist l.kinds := hkinds ▸ List.sublist_cons_self _ _
  constructor
  · have hattempt := hl.attempt
    rw [hkinds, List.count_cons_of_ne hk] at hattempt
    exact hattempt
  · intro hsocket
    exact (hl.ahead hsocket).sublist hsub
  · have hcount := hsub.count_le Kind.resolveHandler
    have honce := hl.once
    change List.count _ _ + l.resolveOp.toNat ≤ 1
    omega
  · intro hresolving
    have hbefore : l.resolving := hresolving.imp id fun hk => hsub.subset hk
    obtain ⟨hresponds, hconnecting, hno⟩ := hl.resolving hbefore
    exact ⟨hresponds, hconnecting, fun hk => hno (hsub.subset hk)⟩
  · intro hc hdue
    exact hl.lower hc (hdue.imp_left fun hk => hsub.subset hk)

theorem Orderly.no_attempt (hl : l.Orderly) (hidle : l.connecting = false) :
    Kind.connectHandler ∉ l.kinds ∧ l.connectOp = false := by
  have hattempt := hl.attempt
  rw [hidle, Bool.toNat_false, Nat.add_eq_zero_iff, List.count_eq_zero, Bool.toNat_eq_zero] at hattempt
  exact hattempt

/-- Behind the handlers `ks` an attempt is posted. -/
theorem orderly_of_startConnect (ks : List Kind) (hkinds : l.kinds = ks ++ [.startConnect])
    (hattempt : ks.count .connectHandler + l.connectOp.toNat = l.connecting.toNat)
    (hahead : l.socket = .null ∨ Kind.connectHandler ∉ ks)
    (hresolveOp : l.resolveOp = false) (hresolve : Kind.resolveHandler ∉ ks)
    (hlower : l.confirmed = false → ∀ m ∈ l.requests, l.mode < m) : l.Orderly := by
  have hnone : Kind.resolveHandler ∉ l.kinds := by
    rw [hkinds, List.mem_append]
    rintro (h | h)
    · exact hresolve h
    · exact nomatch List.mem_singleton.1 h
  constructor
  · rw [hkinds, List.count_append]
    exact hattempt
  · intro hsocket
    refine List.pairwise_of_forall_mem_list fun a ha b _ hcon _ => ?_
    rw [hkinds, hcon, List.mem_append, List.mem_singleton] at ha
    exact (hahead.resolve_left hsocket) (ha.resolve_right (by decide))
  · rw [List.count_eq_zero.2 hnone, hresolveOp]
    exact Nat.zero_le 1
  · rintro (hop | hk)
    · exact nomatch hresolveOp.symm.trans hop
    · exact absurd hk hnone
  · exact fun hc _ => hlower hc

/-- No attempt is under way, and none posted. -/
theorem orderly_of_none (hconnecting : l.connecting = false) (hconnectOp : l.connectOp = false)
    (hconnect : Kind.connectHandler ∉ l.kinds) (hstart : Kind.startConnect ∉ l.kinds)
    (hresolveOp : l.resolveOp = false) (hresolve : Kind.resolveHandler ∉ l.kinds) : l.Orderly := by
  constructor
  · rw [List.count_eq_zero.2 hconnect, hconnectOp, hconnecting]
    rfl
  · exact fun _ => List.pairwise_of_forall_mem_list fun a ha b _ hcon => absurd (hcon ▸ ha) hconnect
  · rw [List.count_eq_zero.2 hresolve, hresolveOp]
    exact Nat.zero_le 1
  · rintro (hop | hk)
    · exact nomatch hresolveOp.symm.trans hop
    · exact absurd hk hresolve
  · rintro - (hk | hcon)
    · exact absurd hk hstart
    · exact nomatch hconnecting.symm.trans hcon

theorem Orderly.lowered (hl : l.Orderly) (hnum : l.Descending) (hd : l.descends = true) (hmode : 0 < l.mode) :
    l.lowered.Orderly := by
  have htorn := hl.plain (plain_torn l)
  have hresponds : l.responds = true := by
    simp only [descends, Bool.and_eq_true] at hd
    exact hd.2
  have hnot : ¬ l.torn.resolving := fun h => Bool.noConfusion (hresponds.symm.trans (htorn.resolving h).1)
  unfold Link.resolving at hnot
  rw [not_or, Bool.not_eq_true] at hnot
  refine orderly_of_startConnect l.torn.kinds List.map_append htorn.attempt (.inl rfl) hnot.1 hnot.2
    fun hc m hm => ?_
  have hge := (hnum.bounds hc m hm).2
  change l.mode - 1 < m
  omega

theorem Orderly.finalized (hl : l.Orderly) (hnum : l.Descending)
    (hconn : (l.finalized now).connSet = true) : (l.finalized now).Orderly := by
  unfold Link.finalized at hconn ⊢
  split_ifs at hconn ⊢ with hd hmode
  · exact hl.lowered hnum hd hmode
  · exact nomatch hconn
  · exact nomatch hconn

/-- **A handler that does not belong to an attempt**: it is plain, or the connection is torn
down. -/
theorem Outcome.plain_or_finalized (hout : Outcome now k l l')
    (hk : k ≠ .startConnect ∧ k ≠ .resolveHandler ∧ k ≠ .connectHandler) :
    Plain l l' ∨ ∃ m, Plain l m ∧ l' = m.finalized now := by
  cases hout with
  | quiet _ hquiet => exact .inl hquiet.plain
  | skip _ => exact .inl (Plain.refl l)
  | disconnect _ _ => exact .inr ⟨l.down, { Plain.refl l with }, rfl⟩
  | shutDown _ _ => exact .inl (plain_shuttingDown now l)
  | finalize _ => exact .inr ⟨l, Plain.refl l, rfl⟩
  | timeOut _ hquiet _ hsocket => exact .inl (hquiet.plain.trans (plain_closed (.inr hsocket)))
  | shutdown => exact .inl (.of_posted (h := .disconnectFinalize) (by decide) { Plain.refl l with } rfl)
  | _ => exact absurd hk (by decide)

theorem Orderly.other (hl : l.Orderly) (hnum : l.Descending)
    (hk : k ≠ .startConnect ∧ k ≠ .resolveHandler ∧ k ≠ .connectHandler) (hout : Outcome now k l l')
    (hconn : l'.connSet = true) : l'.Orderly := by
  rcases hout.plain_or_finalized hk with hplain | ⟨m, hplain, rfl⟩
  · exact hl.plain hplain
  · exact (hl.plain hplain).finalized (hnum.plain hplain) hconn

/-- **`start_connect`.** -/
theorem Orderly.startConnect (hl : l.Orderly) (hnum : l.Descending) (hqueue : l.queue = h :: queue)
    (hk : h.kind = .startConnect) (hout : Outcome now .startConnect { l with queue := queue } l')
    (hconn : l'.connSet = true) : l'.Orderly := by
  have hpop := hl.pop hqueue (by simp [hk])
  have hkinds := kinds_of_queue hqueue
  have hmem : Kind.startConnect ∈ l.kinds := by
    rw [hkinds, hk]
    exact List.mem_cons_self
  cases hout with
  | quiet h _ => exact absurd h (by decide)
  | skip _ => exact hpop
  | exhaust _ _ => exact hpop.finalized { hnum with } hconn
  | dial _ hidle =>
    obtain ⟨hnone, hop⟩ := hpop.no_attempt hidle
    refine ⟨?_, ?_, hpop.once, fun hresolving => ?_, fun hc _ => hl.lower hc (.inl hmem)⟩
    · change List.count _ ({ l with queue := queue } : Link).kinds + 1 = 1
      rw [List.count_eq_zero.2 hnone]
    · exact fun _ => List.pairwise_of_forall_mem_list fun a ha b _ hcon => absurd (hcon ▸ ha) hnone
    · have hbefore : l.resolving := by
        refine hresolving.imp id fun hmem => ?_
        rw [hkinds]
        exact List.mem_cons_of_mem _ hmem
      exact absurd hmem (hl.resolving hbefore).2.2

/-- **`resolve_handler`.** -/
theorem Orderly.resolveHandler (hl : l.Orderly) (hnum : l.Descending) (hqueue : l.queue = h :: queue)
    (hk : h.kind = .resolveHandler) (hout : Outcome now .resolveHandler { l with queue := queue } l')
    (hconn : l'.connSet = true) : l'.Orderly := by
  have hpop := hl.pop hqueue (by simp [hk])
  have hkinds := kinds_of_queue hqueue
  rw [hk] at hkinds
  have hresolving : l.resolving := .inr (hkinds ▸ List.mem_cons_self)
  obtain ⟨hresponds, hidle, hno⟩ := hl.resolving hresolving
  -- no other host is being resolved
  have honce := hl.once
  rw [hkinds, List.count_cons_self] at honce
  have hresolveOp : l.resolveOp = false := by
    rw [← Bool.toNat_eq_zero]
    omega
  have hnone : Kind.resolveHandler ∉ ({ l with queue := queue } : Link).kinds := by
    rw [← List.count_eq_zero]
    omega
  cases hout with
  | quiet h _ => exact absurd h (by decide)
  | skip h => exact absurd h (by simp)
  | resolve n =>
    have hattempt := hpop.attempt
    refine orderly_of_startConnect ({ l with queue := queue } : Link).kinds List.map_append
      hattempt (.inr (hpop.no_attempt hidle).1) hresolveOp hnone fun _ m hm => ?_
    have hsilent : m ∈ l.requests := hm
    rw [hnum.silent hresponds] at hsilent
    exact absurd hsilent List.not_mem_nil
  | unresolved _ =>
    unfold Link.finalized at hconn
    rw [if_neg (by simp [descends, hresponds])] at hconn
    exact absurd hconn Bool.false_ne_true

/-- The completion of the attempt under way has been taken off the queue. -/
structure Completing (l : Link) : Prop where
  connectOp : l.connectOp = false
  connectHandler : Kind.connectHandler ∉ l.kinds
  resolveOp : l.resolveOp = false
  resolveHandler : Kind.resolveHandler ∉ l.kinds
  ahead : l.socket ≠ .null → Kind.startConnect ∉ l.kinds
  lower : l.confirmed = false → ∀ m ∈ l.requests, l.mode < m

theorem Orderly.completing (hl : l.Orderly) (hqueue : l.queue = h :: queue) (hk : h.kind = .connectHandler) :
    ({ l with queue := queue } : Link).Completing := by
  have hkinds := kinds_of_queue hqueue
  rw [hk] at hkinds
  have hattempt := hl.attempt
  rw [hkinds, List.count_cons_self] at hattempt
  have hle : l.connecting.toNat ≤ 1 := Bool.toNat_le _
  have hconnecting : l.connecting = true := by
    rw [← Bool.toNat_eq_one]
    omega
  have hnot : ¬ l.resolving := fun h => nomatch hconnecting.symm.trans (hl.resolving h).2.1
  unfold Link.resolving at hnot
  rw [not_or, Bool.not_eq_true, hkinds, List.mem_cons, not_or] at hnot
  obtain ⟨hresolveOp, -, hresolve⟩ := hnot
  refine ⟨?_, ?_, hresolveOp, hresolve, fun hsocket hmem => ?_, fun hc => hl.lower hc (.inr hconnecting)⟩
  · change l.connectOp = false
    rw [← Bool.toNat_eq_zero]
    omega
  · rw [← List.count_eq_zero]
    omega
  · have hahead := hl.ahead hsocket
    rw [hkinds, List.pairwise_cons] at hahead
    exact hahead.1 _ hmem rfl rfl

/-- **`connect_handler`.** -/
theorem Completing.orderly (hl : l.Completing) (hout : Outcome now .connectHandler l l') : l'.Orderly := by
  cases hout with
  | quiet h _ => exact absurd h (by decide)
  | skip h => exact absurd h (by simp)
  | refuse n _ =>
    have hplain := plain_refused l
    obtain ⟨ks, hrefused, hks, hcount⟩ := hplain.handlers
    rw [hl.connectOp, Bool.toNat_false, Nat.add_eq_zero_iff, List.count_eq_zero] at hcount
    have hfree : Kind.connectHandler ∉ l.refused.kinds := by
      rw [hrefused, List.mem_append, not_or]
      exact ⟨hl.connectHandler, hcount.1⟩
    have hresolve : Kind.resolveHandler ∉ l.refused.kinds := by
      rw [hrefused, List.mem_append, not_or]
      exact ⟨hl.resolveHandler, fun hk => (hks _ hk).2 rfl⟩
    refine orderly_of_startConnect l.refused.kinds List.map_append ?_ (.inr hfree)
      (hplain.resolveOp.trans hl.resolveOp) hresolve fun hc m hm => ?_
    · rw [List.count_eq_zero.2 hfree, Nat.zero_add]
      exact hcount.2
    · have hconf : l.confirmed = false := eq_false_of_imp hplain.confirmed hc
      have hlower := hl.lower hconf m (hplain.requests.subset hm)
      change l.refused.mode < m
      rwa [hplain.mode]
  | tlsFail _ hsocket =>
    have hstart := hl.ahead (by simp [hsocket])
    have hkinds (k : Kind) (hk : k ≠ .disconnect) (hfree : k ∉ l.kinds) :
        k ∉ (l.queue ++ [Handler.disconnect]).map Handler.kind := by
      rw [List.map_append, List.mem_append, not_or]
      exact ⟨hfree, fun h => hk (List.mem_singleton.1 h)⟩
    exact orderly_of_none rfl hl.connectOp (hkinds _ (by decide) hl.connectHandler)
      (hkinds _ (by decide) hstart) hl.resolveOp (hkinds _ (by decide) hl.resolveHandler)
  | accept _ hsocket hquiet =>
    have hstart := hl.ahead (by simp [hsocket])
    refine Orderly.plain ?_ hquiet.plain
    exact orderly_of_none rfl hl.connectOp hl.connectHandler hstart hl.resolveOp hl.resolveHandler

end Orderly

section Steps

/-- **The numbers after a handler.** -/
theorem Descending.outcome (hl : l.Descending) (hout : Outcome now k l l')
    (hcomp : k = .connectHandler → l.connSet = true → l.Completing) : l'.Descending := by
  cases hout with
  | quiet _ hquiet => exact hl.plain hquiet.plain
  | skip _ => exact hl
  | disconnect _ _ => exact Descending.finalized { hl with }
  | shutDown _ _ => exact hl.plain (plain_shuttingDown now l)
  | finalize _ => exact hl.finalized
  | exhaust _ _ => exact hl.finalized
  | dial _ _ => exact { hl with }
  | resolve n => exact { hl with }
  | unresolved _ => exact Descending.finalized { hl with }
  | refuse n _ =>
    have hrefused := hl.plain (plain_refused l)
    exact { hrefused with }
  | tlsFail _ _ =>
    have hsub : (l.logins ++ []).Sublist l.requests := by
      rw [List.append_nil]
      exact List.sublist_append_left _ _
    refine { version := hl.version, sorted := fun hc => (hl.sorted hc).sublist hsub, steps := ?_,
             bounds := fun hc m hm => hl.bounds hc m (hsub.subset hm), begun := fun _ _ => .inl rfl,
             silent := fun h => nomatch h }
    exact hl.steps.imp_right (Or.imp_right fun h => ⟨rfl, h.2⟩)
  | accept hconn _ hquiet =>
    have hlogging : (l.loggingIn now).Descending := hl.loggingIn (hcomp rfl hconn).lower
    refine Descending.plain ?_ hquiet.plain
    exact { hlogging with }
  | timeOut _ hquiet _ hsocket => exact hl.plain (hquiet.plain.trans (plain_closed (.inr hsocket)))
  | shutdown => exact { hl with }

theorem Outcome.connSet (hout : Outcome now k l l') (hconn : l'.connSet = true) : l.connSet = true := by
  cases hout with
  | quiet _ hquiet => exact hquiet.connSet ▸ hconn
  | refuse n _ =>
    change l.refused.connSet = true at hconn
    unfold refused at hconn
    split_ifs at hconn <;> exact hconn
  | _ => assumption

theorem connSet_of_finalized (hconn : (l.finalized now).connSet = true) : l.connSet = true := by
  unfold Link.finalized at hconn
  split_ifs at hconn
  · exact hconn
  · exact nomatch hconn
  · exact nomatch hconn

/-- **The attempts after a handler.** -/
theorem Orderly.run (hl : l.Orderly) (hnum : l.Descending) (hqueue : l.queue = h :: queue)
    (hout : Outcome now h.kind { l with queue := queue } l') (hconn : l'.connSet = true) : l'.Orderly := by
  cases hk : h.kind with
  | startConnect => exact hl.startConnect hnum hqueue hk (hk ▸ hout) hconn
  | resolveHandler => exact hl.resolveHandler hnum hqueue hk (hk ▸ hout) hconn
  | connectHandler => exact (hl.completing hqueue hk).orderly (hk ▸ hout)
  | _ =>
    refine (hl.pop hqueue (by simp [hk])).other ?_ ?_ hout hconn
    · exact { hnum with }
    · simp [hk]

/-- `connect` is called. -/
def Event.isConnect : Event → Bool
  | .connect => true
  | _ => false

/-- **The steps other than `connect`**: a handler is run, the host is resolved, the connection
is torn down, or the step is plain. -/
theorem Move.plain_or {e : Event} (hmove : Move e l l') (he : e.isConnect = false) :
    Plain l l' ∨ (∃ now m, Plain l m ∧ l' = m.finalized now) ∨
      (∃ now h queue, l.queue = h :: queue ∧ Outcome now h.kind { l with queue := queue } l') ∨
      ∃ endpoints, l.resolveOp = true ∧
        l' = { l with resolveOp := false, queue := l.queue ++ [.resolveHandler endpoints] } := by
  cases hmove with
  | stay => exact .inl (Plain.refl l)
  | run hqueue hout => exact .inr (.inr (.inl ⟨_, _, _, hqueue, hout⟩))
  | connectName _ _ => exact nomatch he
  | connectAddress _ _ => exact nomatch he
  | disconnect hout =>
    rcases hout.plain_or_finalized (by decide) with hplain | ⟨m, hplain, rfl⟩
    · exact .inl hplain
    · exact .inr (.inl ⟨_, m, hplain, rfl⟩)
  | caught _ => exact .inl { Plain.refl l with }
  | quiet _ hquiet => exact .inl hquiet.plain
  | resolved hop => exact .inr (.inr (.inr ⟨_, hop, rfl⟩))
  | connected hop =>
    refine .inl { Plain.refl l with handlers := ⟨[.connectHandler], List.map_append, by simp, ?_⟩ }
    rw [hop]
    rfl
  | shutdownCompleted _ =>
    exact .inl (.of_posted (h := .onSSLShutdownCompleted) (by decide) { Plain.refl l with } rfl)
  | expired _ =>
    exact .inl (.of_posted (h := .workloopTimerElapsed false) (by decide) { Plain.refl l with } rfl)

/-- The host is resolved, or not. -/
theorem Orderly.resolved (hl : l.Orderly) (hop : l.resolveOp = true) (endpoints : Option ℕ) :
    ({ l with resolveOp := false, queue := l.queue ++ [.resolveHandler endpoints] } : Link).Orderly := by
  have hkinds : (l.queue ++ [Handler.resolveHandler endpoints]).map Handler.kind =
      l.kinds ++ [.resolveHandler] := List.map_append
  have hstart : Kind.startConnect ∈ l.kinds ++ [.resolveHandler] → Kind.startConnect ∈ l.kinds := by
    rw [List.mem_append]
    exact fun h => h.resolve_right (by decide)
  constructor
  · change List.count _ ((l.queue ++ [Handler.resolveHandler endpoints]).map Handler.kind) + _ = _
    rw [hkinds, List.count_append]
    exact hl.attempt
  · intro hsocket
    change ((l.queue ++ [Handler.resolveHandler endpoints]).map Handler.kind).Pairwise _
    rw [hkinds, List.pairwise_append]
    refine ⟨hl.ahead hsocket, List.pairwise_singleton _ _, fun a _ b hb _ => ?_⟩
    rw [List.mem_singleton.1 hb]
    decide
  · have honce := hl.once
    rw [hop, Bool.toNat_true] at honce
    change List.count _ ((l.queue ++ [Handler.resolveHandler endpoints]).map Handler.kind) + 0 ≤ 1
    rw [hkinds, List.count_append, List.count_singleton_self]
    exact honce
  · intro _
    obtain ⟨hresponds, hconnecting, hno⟩ := hl.resolving (.inl hop)
    refine ⟨hresponds, hconnecting, fun hk => hno (hstart ?_)⟩
    exact hkinds ▸ hk
  · intro hc hdue
    exact hl.lower hc (hdue.imp_left fun hk => hstart (hkinds ▸ hk))

/-- The numbers are right, and as long as the connection is set so are the attempts. -/
structure Detects (l : Link) : Prop where
  descending : l.Descending
  orderly : l.connSet = true → l.Orderly

/-- **One step other than `connect`.** -/
theorem Detects.move {e : Event} (hl : l.Detects) (he : e.isConnect = false) (hmove : Move e l l') :
    l'.Detects := by
  obtain ⟨hnum, horderly⟩ := hl
  rcases hmove.plain_or he with hplain | ⟨now, m, hplain, rfl⟩ | ⟨now, h, queue, hqueue, hout⟩ |
    ⟨endpoints, hop, rfl⟩
  · exact ⟨hnum.plain hplain, fun hc => (horderly (hplain.connSet hc)).plain hplain⟩
  · have hm := hnum.plain hplain
    refine ⟨hm.finalized, fun hc => ?_⟩
    exact ((horderly (hplain.connSet (connSet_of_finalized hc))).plain hplain).finalized hm hc
  · have hpop : ({ l with queue := queue } : Link).Descending := { hnum with }
    refine ⟨hpop.outcome hout fun hk hc => (horderly hc).completing hqueue hk, fun hc => ?_⟩
    exact (horderly (hout.connSet hc)).run hnum hqueue hout hc
  · exact ⟨{ hnum with }, fun hc => (horderly hc).resolved hop endpoints⟩

theorem Idle.plain (hl : l.Idle) (h : Plain l l') : l'.Idle := by
  obtain ⟨ks, hkinds, hks, -⟩ := h.handlers
  refine ⟨h.responds.trans hl.responds, h.connecting.trans hl.connecting, ?_, ?_⟩
  · rw [hkinds, List.mem_append]
    rintro (hk | hk)
    · exact hl.startConnect hk
    · exact (hks _ hk).1 rfl
  · rintro (hop | hk)
    · exact hl.resolving (.inl (h.resolveOp ▸ hop))
    · rw [hkinds, List.mem_append] at hk
      rcases hk with hk | hk
      · exact hl.resolving (.inr hk)
      · exact (hks _ hk).2 rfl

/-- A teardown before `connect` gives the connection back. -/
theorem Idle.finalized (hl : l.Idle) : (l.finalized now).connSet = false := by
  unfold Link.finalized
  rw [if_neg (by simp [descends, hl.responds])]
  rfl

/-- **Before `connect` is called** nothing else starts an attempt. -/
theorem Idle.move {e : Event} (hl : l.Idle) (horderly : l.Orderly) (he : e.isConnect = false)
    (hmove : Move e l l') (hconn : l'.connSet = true) : l'.Idle := by
  rcases hmove.plain_or he with hplain | ⟨now, m, hplain, rfl⟩ | ⟨now, h, queue, hqueue, hout⟩ |
    ⟨endpoints, hop, rfl⟩
  · exact hl.plain hplain
  · exact nomatch (hl.plain hplain).finalized.symm.trans hconn
  · have hkinds := kinds_of_queue hqueue
    have hmem : h.kind ∈ l.kinds := hkinds ▸ List.mem_cons_self
    have hsub : ({ l with queue := queue } : Link).kinds ⊆ l.kinds :=
      hkinds ▸ List.subset_cons_self _ _
    have hpop : ({ l with queue := queue } : Link).Idle :=
      ⟨hl.responds, hl.connecting, fun h => hl.startConnect (hsub h),
        fun h => hl.resolving (h.imp id fun h => hsub h)⟩
    have hother : h.kind ≠ .startConnect ∧ h.kind ≠ .resolveHandler ∧ h.kind ≠ .connectHandler :=
      ⟨fun h => hl.startConnect (h ▸ hmem), fun h => hl.resolving (.inr (h ▸ hmem)),
        fun h => (horderly.no_attempt hl.connecting).1 (h ▸ hmem)⟩
    rcases hout.plain_or_finalized hother with hplain | ⟨m, hplain, rfl⟩
    · exact hpop.plain hplain
    · exact nomatch (hpop.plain hplain).finalized.symm.trans hconn
  · exact absurd (.inl hop) hl.resolving

theorem starting_kinds (l : Link) (hk : k ≠ .other) (hfree : k ∉ l.kinds) : k ∉ l.starting.kinds := by
  unfold starting kinds
  dsimp only
  split_ifs
  · exact hfree
  · rw [List.map_append, List.mem_append, not_or]
    exact ⟨hfree, fun h => hk (List.mem_singleton.1 h)⟩

/-- **`connect` starts the first attempt.** -/
theorem Detects.connect (hl : l.Detects) (hidle : l.connSet = true → l.Idle) (hmove : Move .connect l l') :
    l'.Detects := by
  obtain ⟨hnum, horderly⟩ := id hl
  cases hmove with
  | stay => exact hl
  | quiet he _ => exact nomatch he
  | connectName hconnecting hconn =>
    have hi := hidle hconn
    obtain ⟨hresolveOp, hresolve⟩ := not_or.1 hi.resolving
    obtain ⟨hcon, hop⟩ := (horderly hconn).no_attempt hconnecting
    have hfree := starting_kinds l (by decide) hcon
    rw [if_neg hresolveOp, List.append_nil]
    refine ⟨{ hnum with }, fun _ => ⟨?_, fun _ => ?_, ?_, fun _ => ?_, fun _ _ m hm => ?_⟩⟩
    · change l.starting.kinds.count _ + l.connectOp.toNat = l.connecting.toNat
      rw [List.count_eq_zero.2 hfree, hop, hconnecting]
      rfl
    · exact List.pairwise_of_forall_mem_list fun a ha b _ hk => absurd (hk ▸ ha) hfree
    · change l.starting.kinds.count _ + 1 ≤ 1
      rw [List.count_eq_zero.2 (starting_kinds l (by decide) hresolve)]
    · exact ⟨hi.responds, hconnecting, starting_kinds l (by decide) hi.startConnect⟩
    · have hsilent : m ∈ l.requests := hm
      rw [hnum.silent hi.responds] at hsilent
      exact absurd hsilent List.not_mem_nil
  | connectAddress hconnecting hconn =>
    have hi := hidle hconn
    obtain ⟨hresolveOp, hresolve⟩ := not_or.1 hi.resolving
    obtain ⟨hcon, hop⟩ := (horderly hconn).no_attempt hconnecting
    have hfree := starting_kinds l (by decide) hcon
    rw [Bool.not_eq_true] at hresolveOp
    refine ⟨{ hnum with }, fun _ => orderly_of_startConnect l.starting.kinds List.map_append ?_
      (.inr hfree) hresolveOp (starting_kinds l (by decide) hresolve) fun _ m hm => ?_⟩
    · change l.starting.kinds.count _ + l.connectOp.toNat = l.connecting.toNat
      rw [List.count_eq_zero.2 hfree, hop, hconnecting]
      rfl
    · have hsilent : m ∈ l.requests := hm
      rw [hnum.silent hi.responds] at hsilent
      exact absurd hsilent List.not_mem_nil

/-- `connect` has not been called. -/
structure Waits (l : Link) : Prop extends l.Detects where
  idle : l.connSet = true → l.Idle

/-- Nothing sets the connection again. -/
theorem Move.connSet {e : Event} (hmove : Move e l l') (hconn : l'.connSet = true) : l.connSet = true := by
  cases hmove with
  | run _ hout => exact hout.connSet hconn
  | disconnect hout => exact hout.connSet hconn
  | quiet _ hquiet => exact hquiet.connSet ▸ hconn
  | _ => assumption

theorem Waits.move {e : Event} (hl : l.Waits) (he : e.isConnect = false) (hmove : Move e l l') : l'.Waits := by
  refine ⟨hl.toDetects.move he hmove, fun hconn => ?_⟩
  have hbefore := hmove.connSet hconn
  exact (hl.idle hbefore).move (hl.orderly hbefore) he hmove hconn

theorem Waits.connect {e : Event} (hl : l.Waits) (he : e.isConnect = true) (hmove : Move e l l') :
    l'.Detects := by
  cases e with
  | connect => exact hl.toDetects.connect hl.idle hmove
  | _ => exact nomatch he

end Steps

section Modes

/-- The two states agree in what a teardown reads of the descent. -/
structure Alike (l m : Link) : Prop where
  uri : m.uri = l.uri
  conn : m.client.conn = l.client.conn
  responds : m.responds = l.responds
  logins : m.logins = l.logins
  modeSteps : m.modeSteps = l.modeSteps

/-- The mode is not lowered: it is as before, or the first one is selected. -/
structure Onward (l l' : Link) : Prop where
  uri : l'.uri = l.uri
  modeSteps : l'.modeSteps = l.modeSteps
  mode : l'.mode = l.mode ∨ l.confirmed = false ∧ l.mode = 999 ∧ l'.mode = 3
  confirmed : l.confirmed = true → l'.confirmed = true
  unrecoverable : l.unrecoverable = true → l'.unrecoverable = true
  responds : l'.responds = l.responds ∨ (l'.mode = 999 → l'.unrecoverable = true ∨ l'.confirmed = true)
  logins : l.logins <+: l'.logins

theorem Onward.refl (l : Link) : Onward l l where
  uri := rfl
  modeSteps := rfl
  mode := .inl rfl
  confirmed := id
  unrecoverable := id
  responds := .inl rfl
  logins := List.prefix_rfl

theorem Plain.onward (h : Plain l l') : Onward l l' where
  uri := h.uri
  modeSteps := h.modeSteps
  mode := .inl h.mode
  confirmed := h.confirmed
  unrecoverable := h.unrecoverable
  responds := .inl h.responds
  logins := h.logins

/-- The mode is selected with the first login request. -/
theorem onward_loggingIn (now : ℤ) (hversion : l.uri.version = 999) : Onward l (l.loggingIn now) := by
  have hconf := confirmed_loggingIn now hversion
  have hunrec := unrecoverable_loggingIn now hversion
  have hmode := mode_loggingIn now hversion
  refine { Onward.refl l with
    mode := ?_
    confirmed := fun h => hconf.trans h
    unrecoverable := fun h => hunrec.trans h
    responds := .inr fun h => .inr (hconf.trans (confirmed_of_loggingIn now hversion h)) }
  split_ifs at hmode with hstart
  · exact .inr ⟨hstart.1, hstart.2, hmode⟩
  · exact .inl hmode

/-- **A handler lowers the mode in a teardown only.** -/
theorem Outcome.onward_or_finalized (hout : Outcome now k l l') (hversion : l.uri.version = 999) :
    Onward l l' ∨ ∃ m, Alike l m ∧ l' = m.finalized now := by
  cases hout with
  | quiet _ hquiet => exact .inl hquiet.plain.onward
  | skip _ => exact .inl (Onward.refl l)
  | disconnect _ _ => exact .inr ⟨l.down, ⟨rfl, rfl, rfl, rfl, rfl⟩, rfl⟩
  | shutDown _ _ => exact .inl (plain_shuttingDown now l).onward
  | finalize _ => exact .inr ⟨l, ⟨rfl, rfl, rfl, rfl, rfl⟩, rfl⟩
  | exhaust _ _ => exact .inr ⟨l, ⟨rfl, rfl, rfl, rfl, rfl⟩, rfl⟩
  | dial _ _ => exact .inl { Onward.refl l with }
  | resolve n => exact .inl { Onward.refl l with }
  | unresolved _ => exact .inr ⟨{ l with connecting := false }, ⟨rfl, rfl, rfl, rfl, rfl⟩, rfl⟩
  | refuse n _ =>
    have hrefused := (plain_refused l).onward
    exact .inl { hrefused with }
  | tlsFail _ _ =>
    exact .inl { Onward.refl l with unrecoverable := fun _ => rfl, responds := .inr fun _ => .inl rfl }
  | accept _ _ hquiet =>
    have hlogging := onward_loggingIn now hversion
    have hplain := hquiet.plain
    refine .inl ⟨hplain.uri.trans hlogging.uri, hplain.modeSteps.trans hlogging.modeSteps, ?_,
      fun h => hplain.confirmed (hlogging.confirmed h), fun h => hplain.unrecoverable (hlogging.unrecoverable h),
      .inr fun h => ?_, hlogging.logins.trans hplain.logins⟩
    · rw [hplain.mode]
      exact hlogging.mode
    · have hsame : (l.loggingIn now).mode = 999 := hplain.mode.symm.trans h
      have hconf : (l.loggingIn now).confirmed = true :=
        (confirmed_loggingIn now hversion).trans (confirmed_of_loggingIn now hversion hsame)
      exact .inr (hplain.confirmed hconf)
  | timeOut _ hquiet _ hsocket => exact .inl (hquiet.plain.trans (plain_closed (.inr hsocket))).onward
  | shutdown => exact .inl { Onward.refl l with }

/-- **A step lowers the mode in a teardown only.** -/
theorem Move.onward_or_finalized {e : Event} (hmove : Move e l l') (hversion : l.uri.version = 999) :
    Onward l l' ∨ ∃ now m, Alike l m ∧ l' = m.finalized now := by
  cases hmove with
  | stay => exact .inl (Onward.refl l)
  | run _ hout =>
    rcases hout.onward_or_finalized hversion with honward | ⟨m, halike, rfl⟩
    · exact .inl { honward with }
    · exact .inr ⟨_, m, { halike with }, rfl⟩
  | connectName _ _ => exact .inl { Onward.refl l with }
  | connectAddress _ _ => exact .inl { Onward.refl l with }
  | disconnect hout =>
    rcases hout.onward_or_finalized hversion with honward | ⟨m, halike, rfl⟩
    · exact .inl honward
    · exact .inr ⟨_, m, halike, rfl⟩
  | quiet _ hquiet => exact .inl hquiet.plain.onward
  | _ => exact .inl { Onward.refl l with }

theorem Alike.descends {m : Link} (h : Alike l m) : m.descends = l.descends := by
  unfold Link.descends
  rw [h.conn, h.responds]

theorem Alike.mode {m : Link} (h : Alike l m) : m.mode = l.mode := by
  unfold Link.mode
  rw [h.conn]

/-- The mode is settled. -/
structure Settled (μ : ℕ) (l : Link) : Prop where
  version : l.uri.version = 999
  confirmed : l.confirmed = true
  mode : l.mode = μ

/-- **A confirmed mode stays.** -/
theorem Settled.move {e : Event} {μ : ℕ} (hl : l.Settled μ) (hmove : Move e l l') : l'.Settled μ := by
  obtain ⟨hversion, hconf, hmode⟩ := hl
  rcases hmove.onward_or_finalized hversion with h | ⟨now, m, halike, rfl⟩
  · refine ⟨h.uri ▸ hversion, h.confirmed hconf, ?_⟩
    rcases h.mode with hsame | ⟨hopen, -⟩
    · exact hsame.trans hmode
    · exact nomatch hopen.symm.trans hconf
  · have hnot : ¬ m.descends = true := by
      rw [halike.descends]
      change l.client.conn.stratumModeConfirmed = true at hconf
      simp [descends, hconf]
    have hplain := (plain_torn m).trans (plain_finished now m.torn)
    unfold Link.finalized
    rw [if_neg hnot]
    refine ⟨?_, hplain.confirmed ?_, ?_⟩
    · rw [hplain.uri, halike.uri, hversion]
    · exact (congrArg Conn.stratumModeConfirmed halike.conn).trans hconf
    · rw [hplain.mode, halike.mode, hmode]

/-- While a mode is looked for, the login requests of the modes above it have been sent. -/
structure Tried (l : Link) : Prop where
  version : l.uri.version = 999
  begun : l.responds = true → l.mode = 999 → l.unrecoverable = true ∨ l.confirmed = true
  above : l.confirmed = false → l.unrecoverable = false →
    l.mode = 999 ∨ l.mode ≤ 3 ∧ ∀ μ, l.mode < μ → μ ≤ 3 → μ ∈ l.logins

/-- A teardown that lowers the mode is one of a mode in 0, …, 3. -/
theorem Tried.above_of_descends (hl : l.Tried) (hd : l.descends = true) :
    l.mode ≤ 3 ∧ ∀ μ, l.mode < μ → μ ≤ 3 → μ ∈ l.logins := by
  simp only [descends, Bool.and_eq_true, Bool.not_eq_true'] at hd
  obtain ⟨⟨hunrec, hconf⟩, hresponds⟩ := hd
  rcases hl.above hconf hunrec with hmode | habove
  · rcases hl.begun hresponds hmode with h | h
    · exact absurd (hunrec.symm.trans h) Bool.false_ne_true
    · exact absurd (hconf.symm.trans h) Bool.false_ne_true
  · exact habove

theorem Tried.onward (hl : l.Tried) (h : Onward l l') : l'.Tried := by
  refine ⟨h.uri ▸ hl.version, fun hresponds hmode => ?_, fun hconf hunrec => ?_⟩
  · rcases h.responds with hsame | hdone
    · rcases h.mode with hmode' | ⟨-, -, hthree⟩
      · exact (hl.begun (hsame ▸ hresponds) (hmode' ▸ hmode)).imp h.unrecoverable h.confirmed
      · exact absurd (hthree.symm.trans hmode) (by decide)
    · exact hdone hmode
  · have hconf' : l.confirmed = false := eq_false_of_imp h.confirmed hconf
    have hunrec' : l.unrecoverable = false := eq_false_of_imp h.unrecoverable hunrec
    rcases h.mode with hmode | ⟨-, -, hthree⟩
    · rw [hmode]
      refine (hl.above hconf' hunrec').imp_right fun habove => ⟨habove.1, fun μ hlt hle => ?_⟩
      exact h.logins.subset (habove.2 μ hlt hle)
    · exact .inr ⟨hthree.le, fun μ hlt hle => absurd hle (by omega)⟩

/-- **A teardown of a mode whose login request was sent.** -/
theorem Tried.finalized (hl : l.Tried) (hsent : l.descends = true → l.mode ∈ l.logins) :
    (l.finalized now).Tried := by
  have htorn := hl.onward (plain_torn l).onward
  unfold Link.finalized
  split_ifs with hd hmode
  · obtain ⟨hthree, habove⟩ := hl.above_of_descends hd
    have hlowered : l.lowered.mode = l.mode - 1 := rfl
    refine ⟨htorn.version, fun _ h => by omega, fun _ _ => .inr ⟨by omega, fun μ hlt hle => ?_⟩⟩
    rcases Nat.lt_or_ge l.mode μ with hμ | hμ
    · exact habove μ hμ hle
    · obtain rfl : μ = l.mode := by omega
      exact hsent hd
  · exact ⟨htorn.version, fun _ _ => .inl rfl, fun _ h => nomatch h⟩
  · exact htorn.onward (plain_finished now _).onward

end Modes

end Link

/-- **Auto-detection descends and ends.**  A URI of version 999 whose mode is 999 is connected
once.  As long as its mode is not confirmed, the modes of the login requests sent are a
strictly decreasing sequence within 3, …, 0.  The mode is lowered at most four times, and the
fourth time the connection is marked unrecoverable and given back.  Once the mode is
confirmed it never changes. -/
theorem autoDetection_descends (rt : Runtime) (uri : URI) (conn : Conn) (worktimeout responsetimeout now : ℤ)
    (es : List Link.Event) (hversion : uri.version = 999) (hmode : conn.stratumMode = 999)
    (honce : es.countP Link.Event.isConnect ≤ 1) :
    (run (LinkRun.next rt) ⟨.init uri conn worktimeout responsetimeout now, none⟩ es).Running fun l =>
      (l.confirmed = false → l.logins.Pairwise (· > ·) ∧ ∀ m ∈ l.logins, m ≤ 3) ∧
        l.modeSteps ≤ 4 ∧
        (l.modeSteps = 4 → l.unrecoverable = true ∧ Callback.onDisconnected ∈ l.raised) ∧
        (l.confirmed = true → ∀ es', (run (LinkRun.next rt) ⟨l, none⟩ es').Running fun l' =>
          l'.confirmed = true ∧ l'.mode = l.mode) := by
  have hnum : (Link.init uri conn worktimeout responsetimeout now).Descending :=
    { version := hversion, sorted := fun _ => List.Pairwise.nil, bounds := fun _ m hm => absurd hm List.not_mem_nil,
      steps := .inl ⟨hmode, rfl⟩, begun := fun h => absurd h Bool.false_ne_true, silent := fun _ => rfl }
  have hidle : (Link.init uri conn worktimeout responsetimeout now).Idle :=
    ⟨rfl, rfl, List.not_mem_nil, fun h => h.elim Bool.false_ne_true List.not_mem_nil⟩
  have horderly : (Link.init uri conn worktimeout responsetimeout now).Orderly :=
    Link.orderly_of_none rfl rfl List.not_mem_nil List.not_mem_nil rfl List.not_mem_nil
  have hinit : LinkRun.Running Link.Waits ⟨.init uri conn worktimeout responsetimeout now, none⟩ :=
    fun _ => ⟨⟨hnum, fun _ => horderly⟩, fun _ => hidle⟩
  have hruns : (run (LinkRun.next rt) ⟨.init uri conn worktimeout responsetimeout now, none⟩ es).Running
      Link.Waits ∨ (run (LinkRun.next rt) ⟨.init uri conn worktimeout responsetimeout now, none⟩ es).Running
      Link.Detects := by
    refine run_inv_once hinit (fun s e hs he => ?_) (fun s e hs he => ?_) (fun s e hs he => ?_) honce
    · exact hs.next fun l' hl hmove => hl.move he hmove
    · exact hs.next fun l' hl hmove => hl.connect he hmove
    · exact hs.next fun l' hl hmove => hl.move he hmove
  intro hcrash
  have hend : (run (LinkRun.next rt) ⟨.init uri conn worktimeout responsetimeout now, none⟩ es).link.Descending :=
    hruns.elim (fun h => (h hcrash).descending) fun h => (h hcrash).descending
  generalize (run (LinkRun.next rt) ⟨.init uri conn worktimeout responsetimeout now, none⟩ es).link = l at hend
  have hlogins : l.logins.Sublist l.requests := List.sublist_append_left _ _
  refine ⟨fun hc => ⟨(hend.sorted hc).sublist hlogins, fun m hm => ?_⟩, ?_, fun hfour => ?_, fun hc es' => ?_⟩
  · exact (hend.bounds hc m (hlogins.subset hm)).1
  · rcases hend.steps with ⟨-, h⟩ | h | ⟨-, -, h, -⟩ <;> omega
  · rcases hend.steps with ⟨-, h⟩ | h | ⟨hunrec, -, -, hraised⟩
    · omega
    · omega
    · exact ⟨hunrec, hraised⟩
  · have hsettled : l.Settled l.mode := ⟨hend.version, hc, rfl⟩
    intro hcrash'
    have hafter := LinkRun.inv_of_moves hsettled (fun l e l' hl hmove => hl.move hmove) es' hcrash'
    exact ⟨hafter.confirmed, hafter.mode⟩

/-- The step lowers the mode, or finds none left. -/
def LinkRun.lowers (rt : Runtime) (s : LinkRun) (e : Link.Event) : Bool :=
  (s.next rt e).crash = none && s.link.modeSteps < (s.next rt e).link.modeSteps

/-- The step marks the connection unrecoverable because no mode is left. -/
def LinkRun.givesUp (rt : Runtime) (s : LinkRun) (e : Link.Event) : Bool :=
  s.lowers rt e && (s.next rt e).link.unrecoverable

namespace Link

variable {l m : Link} {now : ℤ}

theorem modeSteps_finalized (hd : l.descends = true) : (l.finalized now).modeSteps = l.modeSteps + 1 := by
  unfold finalized
  rw [if_pos hd]
  split_ifs <;> rfl

/-- The steps that mark the connection unrecoverable come from mode 0. -/
theorem mode_of_finalized (hsteps : l.modeSteps < (l.finalized now).modeSteps)
    (hunrec : (l.finalized now).unrecoverable = true) : l.descends = true ∧ l.mode = 0 := by
  unfold finalized at hsteps hunrec
  split_ifs at hsteps hunrec with hd hmode
  · have hnot : l.client.conn.unrecoverable = false := by
      simp only [descends, Bool.and_eq_true, Bool.not_eq_true'] at hd
      exact hd.1.1
    exact absurd (hnot.symm.trans hunrec) Bool.false_ne_true
  · exact ⟨hd, by omega⟩
  · exact absurd hsteps (lt_irrefl _)

theorem Tried.alike (hl : l.Tried) (h : Alike l m) : m.Tried := by
  obtain ⟨hversion, hbegun, habove⟩ := hl
  refine ⟨h.uri ▸ hversion, ?_, ?_⟩
  · unfold Link.mode Link.unrecoverable Link.confirmed at hbegun ⊢
    rw [h.responds, h.conn]
    exact hbegun
  · unfold Link.mode Link.unrecoverable Link.confirmed at habove ⊢
    rw [h.logins, h.conn]
    exact habove

end Link

section Runs

/-- A client that is about to connect to `stratum://user@127.0.0.1:4444`, whose version is to be
found out. -/
def autoLink : Link :=
  .init
    { uri := "stratum://user@127.0.0.1:4444".toList
      scheme := ⟨.stratum, .none, 999⟩
      host := "127.0.0.1".toList
      port := 4444
      hostType := .ipv4 }
    { stratumMode := 999, user := "user".toList } 180 2 0

/-- The pool accepts the connection, closes it after the login request in mode 3, and refuses the
next one. -/
def refusedRun : List Link.Event :=
  [.connect, .run 0, .run 0, .connected false false, .run 0, .received none, .run 0, .run 0, .run 0, .run 0,
    .connected true false, .run 0, .run 0, .run 0, .run 0]

/-- `autoDetection_descends` at `refusedRun`. -/
theorem autoDetection_descends_refusedRun :
    (run (LinkRun.next silentRuntime) ⟨autoLink, none⟩ refusedRun).link.modeSteps = 4 ∧
      (run (LinkRun.next silentRuntime) ⟨autoLink, none⟩ refusedRun).link.unrecoverable = true := by
  have hfour : (run (LinkRun.next silentRuntime) ⟨autoLink, none⟩ refusedRun).link.modeSteps = 4 := by
    decide +kernel
  have hends := autoDetection_descends silentRuntime autoLink.uri autoLink.client.conn 180 2 0 refusedRun rfl rfl
    (by decide) (by decide +kernel)
  exact ⟨hfour, (hends.2.2.1 hfour).1⟩

/-- The pool accepts every connection and closes it after the login request. -/
def closedRun : List Link.Event :=
  [.connect, .run 0] ++ (List.replicate 4
    [.run 0, .connected false false, .run 0, .received none, .run 0, .run 0, .run 0]).flatten

end Runs

end Stratum
end EtcMiner
