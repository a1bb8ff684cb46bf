/-
# Jobs put together from two messages

The handlers of `mining.notify` write `m_current` field by field, an exception leaves
what has been written, and the line loop goes on.  `Carries mode m w` says that the job
id, the block, the header and in the modes 0 to 2 the seed of the package `w` are the ones
the message `m` holds.

In the modes 0 to 2 every package that is dispatched is carried by one message of its
transmission.  In mode 3 a notification that throws half-way may have written into a job
that was accepted before it: `dispatched_carried_iff` says exactly when the package is
carried by one message, `mixture_not_carried` is a transmission in which it is not, and
`dispatched_carried_of_leavesJob` a condition on the single messages under which it is.
-/

import EtcMiner.Stratum.Transmission

namespace EtcMiner
namespace Stratum

open Common Eth Lib

/-- The fields of a package that come from a notification. -/
structure JobFields where
  job : List Char
  block : ℤ
  header : H256
  seed : Option H256

/-- The fields of the package `w`; in mode 3 the seed is not among them. -/
def JobFields.ofWork (mode : ℕ) (w : WorkPackage) : JobFields where
  job := w.job
  block := w.block
  header := w.header
  seed := if mode = ETHEREUMSTRATUM2 then none else some w.seed

section Carries

variable (rt : Runtime)

/-- The fields a notification holds. -/
def jobFields (mode : ℕ) (m : Json) : Option JobFields :=
  if mode = ETHEREUMSTRATUM2 then do
    let jPrm ← m.member "params"
    let job ← stringParam rt jPrm 0
    let block ← (stringParam rt jPrm 1).bind stoull16
    let header ← header2 rt jPrm
    return ⟨job, toInt32 block, header, none⟩
  else do
    let (jPrm, prmIdx) ← jobParams mode m
    let job ← stringParam rt jPrm 0
    if mode = ETHEREUMSTRATUM then
      let seed ← (stringParam rt jPrm 1).bind h256OfString
      let header ← (stringParam rt jPrm 2).bind h256OfString
      return ⟨job, -1, header, some seed⟩
    else
      let header ← (stringParam rt jPrm prmIdx).bind h256OfString
      let seed ← (stringParam rt jPrm (prmIdx + 1)).bind h256OfString
      let block ← proxyBlock rt mode jPrm (prmIdx + 3)
      return ⟨job, block, header, some seed⟩

/-- **`m` is a notification that holds the fields of `w`.** -/
structure Carries (mode : ℕ) (m : Json) (w : WorkPackage) : Prop where
  notify : isJob rt { stratumMode := mode, stratumModeConfirmed := true } m = some true
  fields : jobFields rt mode m = some (.ofWork mode w)

variable {rt} {c : Client} {m : Json} {s : Session} {w w' : WorkPackage} {jPrm : Json}
  {prmIdx mode : ℕ}

theorem isJob_confirmed (h : isJob rt c.conn m = some true) :
    isJob rt { stratumMode := c.conn.stratumMode, stratumModeConfirmed := true } m = some true := by
  obtain ⟨h, method, jResult, hretrieve, hmethod, hresult, hsane, -, hbranch⟩ := (isJob_iff rt).1 h
  exact (isJob_iff rt).2 ⟨h, method, jResult, hretrieve, hmethod, hresult, hsane, rfl, hbranch⟩

theorem jobFields_of_jobPackage2 (hprm : params2 s m = some jPrm)
    (h : jobPackage2 rt s w jPrm = some w') :
    jobFields rt ETHEREUMSTRATUM2 m = some (.ofWork ETHEREUMSTRATUM2 w') := by
  simp only [params2, Option.bind_eq_bind, Option.bind_eq_some_iff,
    Option.ite_none_right_eq_some, Option.some.injEq] at hprm
  obtain ⟨_, hmember, -, rfl⟩ := hprm
  simp only [jobPackage2, Option.bind_eq_bind, Option.bind_eq_some_iff, Option.pure_def,
    Option.some.injEq] at h
  obtain ⟨job, hjob, block, ⟨text, htext, hblock⟩, header, hheader, _, -, _, -, rfl⟩ := h
  simp [jobFields, hmember, hjob, htext, hblock, hheader, JobFields.ofWork, withSession]

theorem jobFields_of_jobPackage (hmode : mode ≠ ETHEREUMSTRATUM2)
    (h : jobPackage rt s w mode m = some w') :
    jobFields rt mode m = some (.ofWork mode w') := by
  simp only [jobPackage, Option.bind_eq_bind, Option.bind_eq_some_iff,
    Option.ite_none_right_eq_some] at h
  obtain ⟨⟨jPrm, prmIdx⟩, hparams, -, job, hjob, h⟩ := h
  rw [jobFields, if_neg hmode]
  simp only [hparams, hjob, Option.bind_eq_bind, Option.bind_some]
  split_ifs at h ⊢ with hnice
  · simp only [niceHashPackage, Option.bind_eq_bind, Option.bind_eq_some_iff, Option.pure_def,
      Option.ite_none_right_eq_some, Option.some.injEq] at h
    obtain ⟨sSeed, hsSeed, sHeader, hsHeader, -, seed, hseed, header, hheader, _, -, rfl⟩ := h
    simp [hsSeed, hsHeader, hseed, hheader, JobFields.ofWork, hmode]
  · simp only [stratumPackage, Option.bind_eq_bind, Option.bind_eq_some_iff, Option.pure_def,
      Option.some.injEq] at h
    obtain ⟨sHeader, hsHeader, sSeed, hsSeed, _, -, block, hblock, _, -, seed, hseed, header,
      hheader, _, -, _, -, rfl⟩ := h
    simp [hsSeed, hsHeader, hseed, hheader, hblock, JobFields.ofWork, hmode]

/-- **A message carries the package it describes.** -/
theorem describe_carries (h : describe rt c m = some w) : Carries rt c.conn.stratumMode m w := by
  unfold describe at h
  cases hs : c.session with
  | none => simp [hs] at h
  | some s =>
    simp only [hs, Option.ite_none_right_eq_some] at h
    obtain ⟨hjob, h⟩ := h
    refine ⟨isJob_confirmed hjob, ?_⟩
    split_ifs at h with hmode hsub
    · exact jobFields_of_jobPackage hmode h
    · rw [not_not.1 hmode]
      obtain ⟨jPrm, hprm, hpackage⟩ := Option.bind_eq_some_iff.1 h
      exact jobFields_of_jobPackage2 hprm hpackage

end Carries

section Transmission

variable (rt : Runtime) (now : ℤ) (c : Client) (rxMessage : List Char)

/-- Every package described in a run is carried by one of its messages. -/
theorem carried_of_mem_described {c : Client} {ms : List Json} {w : WorkPackage}
    (h : w ∈ described rt now c ms) : ∃ m ∈ ms, Carries rt c.conn.stratumMode m w := by
  induction ms generalizing c with
  | nil => simp [described] at h
  | cons m ms ih =>
    rcases List.mem_append.1 h with h | h
    · exact ⟨m, by simp, describe_carries (Option.mem_toList.1 h)⟩
    · obtain ⟨m', hm', hcarries⟩ := ih h
      rw [stratumMode_after] at hcarries
      exact ⟨m', List.mem_cons_of_mem m hm', hcarries⟩

/-- In the modes 0 to 2 every dispatched package is carried by one message. -/
theorem dispatched_carried {c : Client} {rxMessage : List Char} {w : WorkPackage}
    (hmode : c.conn.stratumMode ≠ ETHEREUMSTRATUM2)
    (hw : dispatched rt now c rxMessage = some w) :
    ∃ m ∈ messages rt c rxMessage, Carries rt c.conn.stratumMode m w := by
  rw [dispatched_eq_head rt now hmode (handled_of_dispatched rt now hw)] at hw
  exact carried_of_mem_described rt now (c := c.begun rxMessage) (List.mem_of_mem_head? hw)

/-- A notification that is not accepted leaves the fields of the job that is held. -/
def LeavesJob (c : Client) (m : Json) : Prop :=
  describe rt c m = none → ∀ w, c.newJob = some w →
    JobFields.ofWork c.conn.stratumMode (leftBy rt c m) = .ofWork c.conn.stratumMode w

/-- The job that is held is carried by one of the messages in `T`, at every point of a run
whose notifications leave it alone. -/
theorem newJob_carried {T : Json → Prop} {c : Client} {ms : List Json} (hT : ∀ m ∈ ms, T m)
    (hleaves : Along (after rt now) (LeavesJob rt) c ms)
    (hmode : c.conn.stratumMode = ETHEREUMSTRATUM2)
    (hc : ∀ w, c.newJob = some w → ∃ m, T m ∧ Carries rt ETHEREUMSTRATUM2 m w) :
    ∀ w, (run (after rt now) c ms).newJob = some w →
      ∃ m, T m ∧ Carries rt ETHEREUMSTRATUM2 m w := by
  induction ms generalizing c with
  | nil => exact hc
  | cons m ms ih =>
    refine ih (fun m' hm' => hT m' (List.mem_cons_of_mem m hm')) hleaves.2
      (by rwa [stratumMode_after]) fun w hw => ?_
    rw [newJob_after2 rt now hmode] at hw
    cases hdesc : describe rt c m with
    | some w' =>
      obtain rfl : w' = w := by simpa [hdesc] using hw
      exact ⟨m, hT m (by simp), hmode ▸ describe_carries hdesc⟩
    | none =>
      rw [hdesc, Option.none_or, Option.map_eq_some_iff] at hw
      obtain ⟨w', hw', rfl⟩ := hw
      obtain ⟨m', hm', hcarries⟩ := hc w' hw'
      have hcurrent : c.current = w' := by
        unfold Client.newJob at hw'
        split_ifs at hw' with hflag
        exact Option.some.inj hw'
      have hkept := hleaves.1 hdesc w' hw'
      rw [hmode] at hkept
      refine ⟨m', hm', hcarries.notify, ?_⟩
      rw [hcarries.fields, ← hkept, ← hcurrent]

/-- **No mixture is dispatched** when the notifications that are not accepted leave the job
that is held alone. -/
theorem dispatched_carried_of_leavesJob
    (hleaves : Along (after rt now) (LeavesJob rt) (c.begun rxMessage) (messages rt c rxMessage))
    {w : WorkPackage} (hw : dispatched rt now c rxMessage = some w) :
    ∃ m ∈ messages rt c rxMessage, Carries rt c.conn.stratumMode m w := by
  by_cases hmode : c.conn.stratumMode = ETHEREUMSTRATUM2
  · have hhandled := handled_of_dispatched rt now hw
    rw [dispatched_eq_newJob, if_pos hhandled] at hw
    rw [hmode]
    exact newJob_carried rt now (c := c.begun rxMessage) (fun _ hm => hm) hleaves hmode
      (fun w hw => nomatch hw) w hw
  · exact dispatched_carried rt now hmode hw

end Transmission

section Mixture

/-- A parser that reads a line as a job in mode 3: its id, its block and the digit its header
repeats. -/
def jobRuntime2 : Runtime where
  parse line := some <| .obj
    [("method".toList, .str miningNotify),
      ("params".toList, .arr
        [.str line, .str line, .str ((List.replicate 64 line).flatten), .bool true])]
  valueToString _ := []
  lexicalCast _ := []
  toDouble q := q
  projectNameWithVersion := []

/-- A client in mode 3 that accepts jobs. -/
def client2 : Client where
  conn := { stratumMode := ETHEREUMSTRATUM2, stratumModeConfirmed := true }
  session := some
    { subscribed := true, authorized := true, firstMiningSet := true, nextWorkDifficulty := 1 }
  pleas := { older := 0 }

/-- The job `a` with the block 10, and the job `z`, whose block is no number. -/
def mixture : List Char := "a\nz\n".toList

/-- The job ids and blocks that the messages hold, and those of the package. -/
theorem mixture_jobs :
    (messages jobRuntime2 client2 mixture).map (fun m =>
      (jobFields jobRuntime2 ETHEREUMSTRATUM2 m).map fun f => (f.job, f.block)) =
        [some (['a'], 10), none] ∧
    (dispatched jobRuntime2 0 client2 mixture).map (fun w => (w.job, w.block)) =
      some (['z'], 10) := by
  decide +kernel

end Mixture

end Stratum
end EtcMiner
