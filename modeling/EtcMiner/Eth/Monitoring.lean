/-
# Temperature control and the chain of timer calls

Two properties of all runs of the farm with its timer (`EtcMiner.Eth.CollectData`).

*Overheating.*  A miner that is paused for overheating should be resumed only when its sensor
says that it has cooled down.  A sensor that says nothing leaves the temperature at `0`, which
is never above `tempStart`, so a paused miner is resumed as soon as one read fails.  That is the
only flaw (`temperature_controlled_iff`); a miner that is seen too hot is always paused.

*The chain.*  `collectData` is called again only if it sets the timer itself.  It does so at its
end, but it leaves earlier when it has reported a hung miner, and then it is never called again:
no temperature is read any more.  Again that is the only flaw (`monitoring_continues_iff`).
-/

import EtcMiner.Eth.CollectData

namespace EtcMiner
namespace Eth

open Lib

/-- The miner holds `PauseDueToOverHeating`. -/
def FarmMiner.overHeated (m : FarmMiner) : Bool := m.miner.pauseFlags .overHeating

/-- What the sensor of the miner returned, if it returned anything. -/
def FarmMiner.reading (s : CollectSettings) (t : Tick) (m : FarmMiner) : Option (BitVec 32) :=
  (t.sample s.hwMon m.hwmoninfo).2.tempC

/-- The timer calls `collectData`, and it runs to its end. -/
def Farm.Completes (s : CollectSettings) (t : Tick) (f : Farm) : Prop :=
  f.terminated = false ∧ f.pending = true ∧ (f.expire s t).pending = true

instance (s : CollectSettings) (t : Tick) (f : Farm) : Decidable (f.Completes s t) :=
  inferInstanceAs (Decidable (_ ∧ _ ∧ _))

/-- The miners `m` before and `m'` after a step are in the same place. -/
def Farm.Becomes (f f' : Farm) (m m' : FarmMiner) : Prop :=
  ∃ i : ℕ, f.miners[i]? = some m ∧ f'.miners[i]? = some m'

/-- Temperature control in one step: the flag is lost only by a call in which the sensor
returned at most `tempStart`, and after a completed call it is held by every miner whose sensor
returned at least `tempStop`. -/
def Farm.Controlled (s : CollectSettings) (deviceCount : ℕ) (f : Farm) (e : FarmEvent) : Prop :=
  (∀ m m', f.Becomes (f.next s deviceCount e) m m' → m.overHeated = true → m'.overHeated = false →
      ∃ t r, e = .tick t ∧ m.reading s t = some r ∧ r ≤ s.tempStart) ∧
    ∀ t, e = .tick t → f.Completes s t →
      ∀ m m' r, f.Becomes (f.next s deviceCount e) m m' → m.reading s t = some r → s.tempStop ≤ r →
        m'.overHeated = true

/-- In a completed call the sensors of all overheated miners return something. -/
def Farm.SensorsAnswer (s : CollectSettings) (f : Farm) : FarmEvent → Prop
  | .tick t => f.Completes s t → ∀ m ∈ f.miners, m.overHeated = true → (m.reading s t).isSome = true
  | _ => True

instance (s : CollectSettings) (f : Farm) : ∀ e, Decidable (f.SensorsAnswer s e)
  | .tick _ => inferInstanceAs (Decidable (_ → ∀ m ∈ _, _ → _))
  | .start | .stop | .pause | .resume | .call .. | .worker .. => isTrue trivial

theorem Miner.call_pauseFlags_of_about {what : MinerPause} {c : MinerCall} (h : c.about what = false)
    (m : Miner) : (m.call c).pauseFlags what = m.pauseFlags what := by
  cases c with
  | setWorkBegin w =>
    simp only [Miner.call]
    split <;> rfl
  | setWorkEnd =>
    simp only [Miner.call]
    split <;> rfl
  | pause p =>
    have hne : what ≠ p := fun heq => by simp [MinerCall.about, heq] at h
    simp [Miner.call, hne]
  | resume p =>
    have hne : what ≠ p := fun heq => by simp [MinerCall.about, heq] at h
    simp [Miner.call, hne]

theorem FarmMiner.overHeated_call {c : MinerCall} (hc : c.about .overHeating = false) (m : FarmMiner) :
    ({ m with miner := m.miner.call c } : FarmMiner).overHeated = m.overHeated :=
  Miner.call_pauseFlags_of_about hc m.miner

theorem FarmMiner.write_miner (m : FarmMiner) (w : WorkerWrite) : (m.write w).miner = m.miner := by
  cases w with
  | hashRate r =>
    simp only [FarmMiner.write]
    split <;> rfl
  | _ => rfl

/-- **The hysteresis**: the flag after the check of the thresholds. -/
theorem overHeating_checkThreshold {s : CollectSettings} (h : s.tempStart < s.tempStop) (tempC : BitVec 32)
    (m : Miner) :
    (s.checkThreshold tempC m).pauseFlags .overHeating =
      if m.pauseFlags .overHeating then !decide (tempC ≤ s.tempStart) else decide (s.tempStop ≤ tempC) := by
  have hstop : s.tempStop ≠ 0 := by
    rintro h0
    rw [h0] at h
    exact absurd h (BitVec.not_lt_zero)
  unfold CollectSettings.checkThreshold
  rw [if_pos hstop]
  cases hpaused : m.pauseFlags .overHeating with
  | true =>
    by_cases hcool : tempC ≤ s.tempStart
    · simp [hcool, Miner.call]
    · simp [hcool, hpaused]
  | false =>
    by_cases hhot : s.tempStop ≤ tempC
    · simp [hhot, Miner.call]
    · simp [hhot, hpaused]

/-- The flag after a completed call. -/
theorem FarmMiner.overHeated_processed {s : CollectSettings} (hmon : s.hwMon ≠ 0)
    (h : s.tempStart < s.tempStop) (t : Tick) (m : FarmMiner) :
    (m.checked.processed s t).overHeated =
      if m.overHeated then !decide ((m.reading s t).getD 0 ≤ s.tempStart)
      else decide (s.tempStop ≤ (m.reading s t).getD 0) := by
  rw [FarmMiner.overHeated, FarmMiner.processed, if_pos hmon, FarmMiner.triggerHashRateUpdate_miner,
    monitorMiner, overHeating_checkThreshold h, FarmMiner.checked_miner, FarmMiner.checked_hwmoninfo]
  rfl

/-- A completed call processes all miners. -/
theorem Farm.Aligned.miners_of_completes {f : Farm} (h : f.Aligned) {s : CollectSettings} {t : Tick}
    (hc : f.Completes s t) (deviceCount : ℕ) :
    (f.next s deviceCount (.tick t)).miners = f.miners.map fun m => m.checked.processed s t := by
  obtain ⟨hrun, hpending, hend⟩ := hc
  have hnext : f.next s deviceCount (.tick t) = f.expire s t := by
    rw [Farm.next, hrun]
    rfl
  rw [hnext]
  have hexpired := h.expired s t
  generalize f.expire s t = f' at hexpired hend
  cases hexpired with
  | idle hidle =>
    rw [hpending] at hidle
    cases hidle
  | failed => cases hend
  | exited => cases hend
  | hung => cases hend
  | completed => rfl

/-- A completed call processes all miners; any other step leaves the flags as they are. -/
theorem Farm.Aligned.overHeated_next {f : Farm} (h : f.Aligned) (s : CollectSettings) (deviceCount : ℕ)
    (e : FarmEvent) {m m' : FarmMiner} (hm : f.Becomes (f.next s deviceCount e) m m') :
    m'.overHeated = m.overHeated ∨ ∃ t, e = .tick t ∧ f.Completes s t ∧ m' = m.checked.processed s t := by
  obtain ⟨i, hi, hi'⟩ := hm
  -- most steps map the miners, or one of them, with a function that keeps the flag
  have hmap {g : FarmMiner → FarmMiner} (hg : ∀ m, (g m).overHeated = m.overHeated)
      (heq : f.miners[i]?.map g = some m') : m'.overHeated = m.overHeated := by
    rw [hi] at heq
    exact Option.some.inj heq ▸ hg m
  have hsame (heq : f.miners[i]? = some m') : m'.overHeated = m.overHeated := by
    rw [hi] at heq
    rw [Option.some.inj heq]
  unfold Farm.next at hi'
  split at hi'
  · exact .inl (hsame hi')
  rename_i hrun
  cases e with
  | start =>
    simp only [Farm.start] at hi'
    split at hi'
    · exact .inl (hsame hi')
    split at hi'
    · rename_i hnil
      rw [hnil] at hi
      cases hi
    · exact .inl (hsame hi')
  | stop =>
    simp only [Farm.stop] at hi'
    split at hi'
    · cases hi'
    · exact .inl (hsame hi')
  | pause =>
    simp only [Farm.callAll, List.getElem?_map] at hi'
    refine .inl (hmap ?_ hi')
    exact FarmMiner.overHeated_call rfl
  | resume =>
    simp only [Farm.callAll, List.getElem?_map] at hi'
    refine .inl (hmap ?_ hi')
    exact FarmMiner.overHeated_call rfl
  | call j c hc =>
    simp only [List.getElem?_modify] at hi'
    refine .inl (hmap ?_ hi')
    intro m
    split
    · exact m.overHeated_call hc
    · rfl
  | worker j w =>
    simp only [List.getElem?_modify] at hi'
    refine .inl (hmap ?_ hi')
    intro m
    split
    · rw [FarmMiner.overHeated, FarmMiner.write_miner, FarmMiner.overHeated]
    · rfl
  | tick t =>
    have hexpired := h.expired s t
    dsimp only at hi'
    generalize hf' : f.expire s t = f' at hexpired hi'
    cases hexpired with
    | idle => exact .inl (hsame hi')
    | failed => exact .inl (hsame hi')
    | exited => exact .inl (hsame hi')
    | hung _ _ _ _ k =>
      rw [List.getElem?_mapIdx] at hi'
      refine .inl (hmap ?_ hi')
      intro m
      split
      · rw [FarmMiner.overHeated, FarmMiner.checked_miner, FarmMiner.overHeated]
      · rfl
    | completed hpending =>
      right
      refine ⟨t, rfl, ⟨by simpa using hrun, hpending, by rw [hf']⟩, ?_⟩
      rw [List.getElem?_map, hi] at hi'
      exact (Option.some.inj hi').symm

section Overheating

variable {s : CollectSettings} (deviceCount : ℕ)

/-- A step is controlled exactly when the sensors answer. -/
theorem Farm.Aligned.controlled_iff {f : Farm} (h : f.Aligned) (hmon : s.hwMon ≠ 0)
    (htemp : s.tempStart < s.tempStop) (e : FarmEvent) :
    f.Controlled s deviceCount e ↔ f.SensorsAnswer s e := by
  constructor
  · intro hcontrolled
    cases e with
    | tick t =>
    intro hcompletes m hm hheld
    obtain ⟨i, hi⟩ := List.mem_iff_getElem?.1 hm
    by_contra hnone
    rw [Bool.not_eq_true, Option.isSome_eq_false_iff, Option.isNone_iff_eq_none] at hnone
    -- without a reading the temperature is `0`, and the miner is resumed
    have hlost : (m.checked.processed s t).overHeated = false := by
      rw [FarmMiner.overHeated_processed hmon htemp, hnone, hheld]
      simp [BitVec.le_def]
    have hbecomes : f.Becomes (f.next s deviceCount (.tick t)) m (m.checked.processed s t) := by
      refine ⟨i, hi, ?_⟩
      rw [h.miners_of_completes hcompletes, List.getElem?_map, hi]
      rfl
    obtain ⟨t', r, he, hr, -⟩ := hcontrolled.1 m _ hbecomes hheld hlost
    cases he
    rw [hnone] at hr
    cases hr
    | _ => trivial
  · intro hanswer
    constructor
    · intro m m' hbecomes hheld hlost
      rcases h.overHeated_next s deviceCount e hbecomes with hsame | ⟨t, rfl, hcompletes, rfl⟩
      · rw [hsame, hheld] at hlost
        cases hlost
      · obtain ⟨i, hi, -⟩ := hbecomes
        obtain ⟨r, hr⟩ := Option.isSome_iff_exists.1 (hanswer hcompletes m (List.mem_of_getElem? hi) hheld)
        refine ⟨t, r, rfl, hr, ?_⟩
        rw [FarmMiner.overHeated_processed hmon htemp, hr, hheld] at hlost
        simpa using hlost
    · intro t he hcompletes m m' r hbecomes hr hhot
      obtain ⟨i, hi, hi'⟩ := hbecomes
      rw [he, h.miners_of_completes hcompletes, List.getElem?_map, hi] at hi'
      rw [← Option.some.inj hi', FarmMiner.overHeated_processed hmon htemp, hr]
      split
      · have hwarm : s.tempStart < r := by
          rw [BitVec.lt_def] at htemp ⊢
          rw [BitVec.le_def] at hhot
          omega
        simpa using hwarm
      · simpa using hhot

/-- **When overheated miners stay paused until they are cool.**  In a run of the farm from its
construction on, temperature control works in every step exactly when in every completed call
the sensors of all overheated miners return something. -/
theorem temperature_controlled_iff (hmon : s.hwMon ≠ 0) (htemp : s.tempStart < s.tempStop)
    (es : List FarmEvent) :
    Along (Farm.next s deviceCount) (Farm.Controlled s deviceCount) Farm.init es ↔
      Along (Farm.next s deviceCount) (Farm.SensorsAnswer s) Farm.init es :=
  along_iff_along (show Farm.init.Aligned from ⟨rfl, rfl⟩)
    (fun _ e h => h.controlled_iff deviceCount hmon htemp e) (fun _ e h _ => h.next s deviceCount e) es

end Overheating

/-- Monitoring from 80 degrees down to 40. -/
def hotSettings : CollectSettings where
  hwMon := 1
  tempStart := 40
  tempStop := 80
  toFloat := id
  toDouble := id

/-- One AMD device, whose file `temp1_input` holds `temp`. -/
def amdTick (temp : BitVec 32) : Tick where
  amdh := some
    { handle := fun _ => some 0
      getTempC := wrapAmdsysfsGetTempC [(0, 0)] fun _ _ => temp }

/-- The device is at 90 degrees. -/
def hotRun : List FarmEvent :=
  [.start, .worker 0 (.initDevice { deviceType := .amd, devicePciId := ['0'] }), .tick (amdTick 90000)]

/-- The device cools down to 30 degrees and is read all the time. -/
theorem temperature_controlled_cooling :
    Along (Farm.next hotSettings 1) (Farm.Controlled hotSettings 1) Farm.init
      (hotRun ++ [.tick (amdTick 60000), .tick (amdTick 30000)]) :=
  (temperature_controlled_iff 1 (by decide) (by decide) _).2 (by decide +kernel)

/-- One read of the hot device fails, and the miner is resumed. -/
theorem overheated_miner_resumed :
    ¬ Along (Farm.next hotSettings 1) (Farm.Controlled hotSettings 1) Farm.init
      (hotRun ++ [.tick (amdTick 0)]) := by
  rintro ⟨-, -, -, hlast, -⟩
  have haligned : (run (Farm.next hotSettings 1) Farm.init hotRun).Aligned := ⟨by decide +kernel, by decide +kernel⟩
  have hanswer := (haligned.controlled_iff 1 (by decide) (by decide) (.tick (amdTick 0))).1 hlast
  exact absurd hanswer (by decide +kernel)

section Chain

variable (s : CollectSettings) (deviceCount : ℕ)

/-- The timer calls `collectData` in this step, without an error. -/
def Farm.Called (f : Farm) (t : Tick) : Prop :=
  f.terminated = false ∧ f.pending = true ∧ t.ec = false

instance (f : Farm) (t : Tick) : Decidable (f.Called t) := inferInstanceAs (Decidable (_ ∧ _ ∧ _))

/-- A call without a timer error that does not throw sets the timer again. -/
def Farm.Scheduled (f : Farm) (e : FarmEvent) : Prop :=
  ∀ t, e = .tick t → f.Called t → (f.next s deviceCount e).terminated = false →
    (f.next s deviceCount e).pending = true

/-- No call finds a hung miner, unless the process ends then. -/
def Farm.Responsive (f : Farm) : FarmEvent → Prop
  | .tick t => f.Called t → s.exitOnError = false → ∀ m ∈ f.miners, ¬ m.Hung
  | _ => True

instance (f : Farm) : ∀ e, Decidable (f.Responsive s e)
  | .tick _ => inferInstanceAs (Decidable (_ → _ → ∀ m ∈ _, _))
  | .start | .stop | .pause | .resume | .call .. | .worker .. => isTrue trivial

/-- The timer does not fail. -/
def Farm.TimerRuns (f : Farm) : FarmEvent → Prop
  | .tick t => f.terminated = false → f.pending = true → t.ec = false
  | _ => True

/-- There is a call to come, or the process has ended. -/
def Farm.Monitored (f : Farm) : Prop := f.terminated = true ∨ f.pending = true

instance (f : Farm) : Decidable f.Monitored := inferInstanceAs (Decidable (_ ∨ _))

/-- Only the timer changes `pending` and `terminated`. -/
theorem Farm.next_of_not_tick {f : Farm} {e : FarmEvent} (he : ∀ t, e ≠ .tick t) :
    (f.next s deviceCount e).pending = f.pending ∧ (f.next s deviceCount e).terminated = f.terminated := by
  unfold Farm.next
  split
  · exact ⟨rfl, rfl⟩
  cases e with
  | start =>
    simp only [Farm.start]
    split
    · exact ⟨rfl, rfl⟩
    split <;> exact ⟨rfl, rfl⟩
  | stop =>
    simp only [Farm.stop]
    split <;> exact ⟨rfl, rfl⟩
  | tick t => exact absurd rfl (he t)
  | _ => exact ⟨rfl, rfl⟩

theorem Farm.next_tick {f : Farm} (hrun : f.terminated = false) (t : Tick) :
    f.next s deviceCount (.tick t) = f.expire s t := by
  rw [Farm.next, hrun]
  rfl

variable {s} in
/-- **What a call leaves**: it is to be made again, or has ended the process, exactly when it
found no hung miner or may exit. -/
theorem Farm.Aligned.monitored_iff {f : Farm} (h : f.Aligned) {t : Tick} (hcalled : f.Called t) :
    (f.next s deviceCount (.tick t)).Monitored ↔ f.Responsive s (.tick t) := by
  obtain ⟨hrun, hpending, hec⟩ := hcalled
  rw [Farm.next_tick s deviceCount hrun]
  have hexpired := h.expired s t
  generalize f.expire s t = f' at hexpired
  cases hexpired with
  | idle hidle =>
    rw [hpending] at hidle
    cases hidle
  | failed _ hfail =>
    rw [hec] at hfail
    cases hfail
  | exited _ _ _ hexit =>
    refine iff_of_true (.inl rfl) fun _ hno => ?_
    rw [hexit] at hno
    cases hno
  | hung _ _ hhung hexit =>
    obtain ⟨m, hm, hbad⟩ := hhung
    refine iff_of_false ?_ fun hresponsive => hresponsive ⟨hrun, hpending, hec⟩ hexit m hm hbad
    simp [Farm.Monitored, hrun]
  | completed _ _ hhung => exact iff_of_true (.inr rfl) fun _ _ => hhung

/-- A step schedules the next call exactly when it is responsive. -/
theorem Farm.Aligned.scheduled_iff {f : Farm} (h : f.Aligned) (e : FarmEvent) :
    f.Scheduled s deviceCount e ↔ f.Responsive s e := by
  cases e with
  | tick t =>
    by_cases hcalled : f.Called t
    · rw [← h.monitored_iff deviceCount hcalled]
      unfold Farm.Monitored
      constructor
      · intro hscheduled
        cases hend : (f.next s deviceCount (.tick t)).terminated with
        | true => exact .inl rfl
        | false => exact .inr (hscheduled t rfl hcalled hend)
      · rintro (hend | hpending) t' ht' hcalled' hrun
        · rw [hend] at hrun
          cases hrun
        · exact hpending
    · refine iff_of_true ?_ fun hc => absurd hc hcalled
      intro t' ht' hcalled'
      cases ht'
      exact absurd hcalled' hcalled
  | _ =>
    refine iff_of_true ?_ trivial
    intro t ht
    cases ht

/-- A farm without a call to come stays so. -/
theorem Farm.next_of_not_monitored {f : Farm} (h : ¬ f.Monitored) (e : FarmEvent) :
    ¬ (f.next s deviceCount e).Monitored := by
  simp only [Farm.Monitored, not_or, Bool.not_eq_true] at h ⊢
  by_cases he : ∃ t, e = .tick t
  · obtain ⟨t, rfl⟩ := he
    rw [Farm.next_tick s deviceCount h.1, Farm.expire, h.2]
    exact h
  · have hsame := @Farm.next_of_not_tick s deviceCount f e fun t ht => he ⟨t, ht⟩
    rw [hsame.1, hsame.2]
    exact h

/-- A step keeps a call to come exactly when it is responsive and the timer runs. -/
theorem Farm.Aligned.next_monitored_iff {f : Farm} (h : f.Aligned) (hmonitored : f.Monitored) (e : FarmEvent) :
    (f.next s deviceCount e).Monitored ↔ f.Responsive s e ∧ f.TimerRuns e := by
  by_cases he : ∃ t, e = .tick t
  · obtain ⟨t, rfl⟩ := he
    cases hend : f.terminated with
    | true =>
      have hnever {p : Prop} : f.terminated = false → p := fun hrun => by simp [hend] at hrun
      rw [Farm.next, if_pos hend]
      exact iff_of_true hmonitored ⟨fun hcalled => hnever hcalled.1, fun hrun => hnever hrun⟩
    | false =>
      have hpending : f.pending = true := hmonitored.resolve_left (by simp [hend])
      cases hec : t.ec with
      | false =>
        rw [h.monitored_iff deviceCount ⟨hend, hpending, hec⟩]
        exact ⟨fun hresponsive => ⟨hresponsive, fun _ _ => hec⟩, And.left⟩
      | true =>
        refine iff_of_false ?_ fun hruns => ?_
        · rw [Farm.next_tick s deviceCount hend]
          simp [Farm.expire, hpending, Farm.collectData, hec, Farm.Monitored, hend]
        · have hno := hruns.2 hend hpending
          rw [hec] at hno
          cases hno
  · have hsame := @Farm.next_of_not_tick s deviceCount f e fun t ht => he ⟨t, ht⟩
    unfold Farm.Monitored at hmonitored ⊢
    rw [hsame.1, hsame.2]
    refine iff_of_true hmonitored ?_
    cases e with
    | tick t => exact absurd ⟨t, rfl⟩ he
    | _ => exact ⟨trivial, trivial⟩

/-- **When monitoring works for the whole lifetime of the farm.**  In a run of the farm from its
construction on, every call that does not throw schedules the next one exactly when no call
finds a hung miner, or the process ends then; and if the timer does not fail either, there is a
call to come at the end of the run. -/
theorem monitoring_continues_iff (es : List FarmEvent) :
    (Along (Farm.next s deviceCount) (Farm.Scheduled s deviceCount) Farm.init es ↔
        Along (Farm.next s deviceCount) (Farm.Responsive s) Farm.init es) ∧
      ((run (Farm.next s deviceCount) Farm.init es).Monitored ↔
        Along (Farm.next s deviceCount) (fun f e => f.Responsive s e ∧ f.TimerRuns e) Farm.init es) := by
  have hinit : Farm.init.Aligned := ⟨rfl, rfl⟩
  constructor
  · exact along_iff_along hinit (fun _ e h => h.scheduled_iff s deviceCount e)
      (fun _ e h _ => h.next s deviceCount e) es
  · have haligned : (run (Farm.next s deviceCount) Farm.init es).Aligned :=
      Along.run_inv hinit (fun _ e h _ => h.next s deviceCount e) (along_of_forall (fun _ _ => trivial) es)
    rw [← and_iff_right (b := (run (Farm.next s deviceCount) Farm.init es).Monitored) haligned]
    refine @run_iff_along _ _ (Farm.next s deviceCount) (fun f e => f.Responsive s e ∧ f.TimerRuns e) Farm.init
      (fun f => f.Aligned ∧ f.Monitored) (fun f => ¬ f.Monitored) ?_ ⟨hinit, .inr rfl⟩ ?_ ?_ ?_ es
    · exact fun f hlost hgood => hlost hgood.2
    · exact fun f e hgood hstep =>
        ⟨hgood.1.next s deviceCount e, (hgood.1.next_monitored_iff s deviceCount hgood.2 e).2 hstep⟩
    · exact fun f e hgood hstep hnext => hstep ((hgood.1.next_monitored_iff s deviceCount hgood.2 e).1 hnext)
    · exact fun f e hlost => Farm.next_of_not_monitored s deviceCount hlost e

end Chain

/-- A miner is initialized and does not show life for two calls; the third is never made. -/
def hungRun : List FarmEvent := [.start, .worker 0 (.initialized true), .tick {}, .tick {}]

/-- After the second call the farm mines on and nothing watches it. -/
theorem monitoring_stops :
    ¬ Along (Farm.next hotSettings 1) (Farm.Scheduled hotSettings 1) Farm.init hungRun ∧
      (run (Farm.next hotSettings 1) Farm.init hungRun).isMining = true ∧
      ¬ (run (Farm.next hotSettings 1) Farm.init hungRun).Monitored := by
  refine ⟨?_, by decide +kernel, by decide +kernel⟩
  rintro ⟨-, -, -, hlast, -⟩
  have hpending := hlast {} rfl (by decide +kernel) (by decide +kernel)
  exact absurd hpending (by decide +kernel)

end Eth
end EtcMiner
