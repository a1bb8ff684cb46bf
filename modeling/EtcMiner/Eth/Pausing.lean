/-
# Which package a paused miner works on

`Miner::setWork`, `Miner::pause` and `Miner::resume` in `libeth/Miner.cpp`, over whole runs.
`setWork` looks at the pause flags first and stores the package afterwards, and `pause` does
not wait for `miner_work_mutex`.  The worker reads a package with a header exactly when the last
`setWork` saw no flag and nothing has voided the package since it ended (`readWork_iff`).  So
`resume` alone never brings work back, and a miner is given work while it is paused exactly
when a `pause` fell between the two steps of that `setWork` (`works_while_paused_iff`).
-/

import EtcMiner.Eth.Monitoring
import EtcMiner.Lib.Latch

namespace EtcMiner
namespace Eth

open Lib

/-- A call in `cs` sets the flag, and none resets it afterwards. -/
def Held (what : MinerPause) (cs : List MinerCall) : Prop := Latched (· = .pause what) (· = .resume what) cs

/-- The package `w` is stored last in `cs`: a `setWork` that sees no flag begins with it after
`before` and ends after `during`; then no other one begins, and nothing pauses the miner. -/
structure Stores (w : WorkPackage) (cs before during after : List MinerCall) : Prop where
  split : cs = before ++ .setWorkBegin w :: (during ++ .setWorkEnd :: after)
  idle : (run Miner.call {} before).setting = none
  unpaused : (run Miner.call {} before).paused = false
  during : .setWorkEnd ∉ during
  noOther : ∀ w', .setWorkBegin w' ∉ after
  noPause : ∀ what, .pause what ∉ after

theorem Miner.paused_iff (m : Miner) : m.paused = true ↔ ∃ what, m.pauseFlags what = true := by
  constructor
  · intro h
    simp only [Miner.paused, Bool.or_eq_true] at h
    rcases h with (((h | h) | h) | h) | h
    all_goals exact ⟨_, h⟩
  · rintro ⟨what, h⟩
    cases what <;> simp [Miner.paused, h]

theorem Miner.paused_eq_false_iff (m : Miner) : m.paused = false ↔ ∀ what, m.pauseFlags what = false := by
  rw [← Bool.not_eq_true, Miner.paused_iff]
  simp

/-- **The flags after a run**: a flag is set exactly when a call set it and none reset it
afterwards, or it was set before and no call reset it. -/
theorem Miner.run_pauseFlags_iff (m : Miner) (what : MinerPause) (cs : List MinerCall) :
    (run Miner.call m cs).pauseFlags what = true ↔
      Held what cs ∨ (m.pauseFlags what = true ∧ ∀ c ∈ cs, c ≠ .resume what) := by
  refine @latch_run_iff _ _ Miner.call (fun _ _ => True) (fun m => m.pauseFlags what) (· = .pause what)
    (· = .resume what) ?_ ?_ ?_ m cs (along_of_forall (fun _ _ => trivial) cs)
  · rintro m c - rfl
    simp [Miner.call]
  · rintro m c - rfl
    simp [Miner.call]
  · intro m c _ hpause hresume
    refine Miner.call_pauseFlags_of_about ?_ m
    cases c with
    | pause p => simpa [MinerCall.about] using hpause
    | resume p => simpa [MinerCall.about] using hresume
    | _ => rfl

/-- What the calls so far tell of the package: which one a `setWork` under way is about to store,
and which one was stored. -/
structure Miner.Told (m : Miner) (cs : List MinerCall) : Prop where
  state : m = run Miner.call {} cs
  begun : ∀ w, m.setting = some (w, false) → ∃ before during, cs = before ++ .setWorkBegin w :: during ∧
    (run Miner.call {} before).setting = none ∧ (run Miner.call {} before).paused = false ∧
    .setWorkEnd ∉ during
  stored : m.setting = none → ¬ m.work.IsVoid → ∃ before during after, Stores m.work cs before during after

theorem WorkPackage.isVoid_voided (w : WorkPackage) : w.voided.IsVoid := rfl

theorem Stores.concat {w : WorkPackage} {cs before during after : List MinerCall}
    (h : Stores w cs before during after) {c : MinerCall} (hbegin : ∀ w', c ≠ .setWorkBegin w')
    (hpause : ∀ what, c ≠ .pause what) : Stores w (cs ++ [c]) before during (after ++ [c]) where
  split := by simp [h.split]
  idle := h.idle
  unpaused := h.unpaused
  during := h.during
  noOther w' := by simpa [h.noOther w'] using (hbegin w').symm
  noPause what := by simpa [h.noPause what] using (hpause what).symm

/-- Every call keeps it. -/
theorem Miner.Told.call {m : Miner} {cs : List MinerCall} (h : m.Told cs) (c : MinerCall) :
    (m.call c).Told (cs ++ [c]) := by
  -- a call that does not end a `setWork` leaves the one under way as it is
  have hbegun (hc : c ≠ .setWorkEnd) {w : WorkPackage} (hw : m.setting = some (w, false)) :
      ∃ before during, cs ++ [c] = before ++ .setWorkBegin w :: during ∧
        (run Miner.call {} before).setting = none ∧ (run Miner.call {} before).paused = false ∧
        .setWorkEnd ∉ during := by
    obtain ⟨before, during, rfl, hidle, hpaused, hduring⟩ := h.begun w hw
    exact ⟨before, during ++ [c], by simp, hidle, hpaused, by simpa [hduring] using hc.symm⟩
  have hstored (hidle : m.setting = none) (hwork : ¬ m.work.IsVoid) (hbegin : ∀ w', c ≠ .setWorkBegin w')
      (hpause : ∀ what, c ≠ .pause what) : ∃ before during after, Stores m.work (cs ++ [c]) before during after := by
    obtain ⟨before, during, after, hs⟩ := h.stored hidle hwork
    exact ⟨before, during, after ++ [c], hs.concat hbegin hpause⟩
  refine ⟨by rw [run_concat, ← h.state], ?_, ?_⟩
  · intro w hw
    cases c with
    | setWorkBegin w' =>
      cases hsetting : m.setting with
      | none =>
        simp only [Miner.call, hsetting, Option.some.injEq, Prod.mk.injEq] at hw
        obtain ⟨rfl, hpaused⟩ := hw
        refine ⟨cs, [], rfl, ?_, ?_, by simp⟩
        · rw [← h.state, hsetting]
        · rw [← h.state, hpaused]
      | some setting =>
        refine hbegun (by simp) ?_
        simpa only [Miner.call, hsetting] using hw
    | setWorkEnd =>
      cases hsetting : m.setting with
      | none => simp [Miner.call, hsetting] at hw
      | some setting => simp [Miner.call, hsetting] at hw
    | pause what => exact hbegun (by simp) hw
    | resume what => exact hbegun (by simp) hw
  · intro hidle hwork
    cases c with
    | setWorkBegin w' =>
      cases hsetting : m.setting with
      | none => simp [Miner.call, hsetting] at hidle
      | some setting => simp [Miner.call, hsetting] at hidle
    | setWorkEnd =>
      cases hsetting : m.setting with
      | none =>
        simp only [Miner.call, hsetting] at hwork ⊢
        exact hstored hsetting hwork (by simp) (by simp)
      | some setting =>
        obtain ⟨w, seen⟩ := setting
        simp only [Miner.call, hsetting] at hwork ⊢
        cases seen with
        | true => exact absurd (WorkPackage.isVoid_voided m.work) hwork
        | false =>
          obtain ⟨before, during, rfl, hbefore, hpaused, hduring⟩ := h.begun w hsetting
          exact ⟨before, during, [], by simp, hbefore, hpaused, hduring, by simp, by simp⟩
    | pause what => exact absurd (WorkPackage.isVoid_voided m.work) hwork
    | resume what => exact hstored hidle hwork (by simp) (by simp)

theorem Miner.told_run (cs : List MinerCall) : (run Miner.call {} cs).Told cs := by
  induction cs using List.reverseRecOn with
  | nil => exact ⟨rfl, by simp [run], fun _ h => absurd rfl h⟩
  | append_singleton cs c ih =>
    rw [run_concat]
    exact ih.call c

/-- While a `setWork` is under way, it is what is stored in the end. -/
theorem Miner.run_setting {m : Miner} {w : WorkPackage × Bool} (hm : m.setting = some w) {cs : List MinerCall}
    (hcs : .setWorkEnd ∉ cs) : (run Miner.call m cs).setting = some w := by
  refine @Along.run_inv _ _ Miner.call (fun _ c => c ≠ .setWorkEnd) m (fun m => m.setting = some w) hm ?_ cs
    (along_of_mem fun c hc _ heq => hcs (heq ▸ hc))
  intro m c hm hc
  cases c with
  | setWorkEnd => exact absurd rfl hc
  | setWorkBegin w' => simp only [Miner.call, hm]
  | pause what => exact hm
  | resume what => exact hm

/-- Without a new `setWork` and without a pause the package stays. -/
theorem Miner.run_work {m : Miner} (hm : m.setting = none) {cs : List MinerCall}
    (hbegin : ∀ w, .setWorkBegin w ∉ cs) (hpause : ∀ what, .pause what ∉ cs) :
    (run Miner.call m cs).setting = none ∧ (run Miner.call m cs).work = m.work := by
  refine @Along.run_inv _ _ Miner.call (fun _ c => (∀ w, c ≠ .setWorkBegin w) ∧ ∀ what, c ≠ .pause what) m
    (fun m' => m'.setting = none ∧ m'.work = m.work) ⟨hm, rfl⟩ ?_ cs (along_of_mem fun c hc _ => ?_)
  · intro m' c hm' hc
    cases c with
    | setWorkBegin w => exact absurd rfl (hc.1 w)
    | pause what => exact absurd rfl (hc.2 what)
    | setWorkEnd => simpa only [Miner.call, hm'.1] using hm'
    | resume what => exact hm'
  · exact ⟨fun w heq => hbegin w (heq ▸ hc), fun what heq => hpause what (heq ▸ hc)⟩

theorem Miner.call_setWorkBegin {m : Miner} (hidle : m.setting = none) (hpaused : m.paused = false) (w : WorkPackage) :
    (m.call (.setWorkBegin w)).setting = some (w, false) := by
  simp only [Miner.call, hidle, hpaused]

theorem Miner.call_setWorkEnd {m : Miner} {w : WorkPackage} (hm : m.setting = some (w, false)) :
    (m.call .setWorkEnd).setting = none ∧ (m.call .setWorkEnd).work = w := by
  simp [Miner.call, hm]

theorem Miner.readWork_of_setting {m : Miner} (h : m.setting = none) : m.readWork = some m.work := by
  rw [Miner.readWork, h]

/-- The package stored last is the one the worker reads. -/
theorem Stores.readWork_eq {w : WorkPackage} {cs before during after : List MinerCall}
    (h : Stores w cs before during after) : (run Miner.call {} cs).readWork = some w := by
  have hbegun := Miner.run_setting (Miner.call_setWorkBegin h.idle h.unpaused w) h.during
  have hend := Miner.call_setWorkEnd hbegun
  have hafter := Miner.run_work hend.1 h.noOther h.noPause
  rw [h.split, run_append, run_cons, run_append, run_cons, Miner.readWork_of_setting hafter.1, hafter.2, hend.2]

/-- A package with a header that the worker reads was stored last. -/
theorem Miner.stores_of_readWork {w : WorkPackage} (hw : ¬ w.IsVoid) {cs : List MinerCall}
    (hread : (run Miner.call {} cs).readWork = some w) : ∃ before during after, Stores w cs before during after := by
  have hidle : (run Miner.call {} cs).setting = none := by
    unfold Miner.readWork at hread
    split at hread
    · assumption
    · cases hread
  have hwork := Miner.work_eq_of_readWork hread
  rw [← hwork] at hw ⊢
  exact (Miner.told_run cs).stored hidle hw

/-- **Which package the worker reads.**  In every order of the steps of other threads, the worker
reads the package `w` with a header exactly when `w` was stored last: a `setWork` that saw no
pause flag began with `w` and ended, and since then no other one began and nothing paused the
miner.  In particular `resume` does not bring back the package that `pause` voided. -/
theorem readWork_iff {w : WorkPackage} (hw : ¬ w.IsVoid) (cs : List MinerCall) :
    (run Miner.call {} cs).readWork = some w ↔ ∃ before during after, Stores w cs before during after :=
  ⟨Miner.stores_of_readWork hw, fun ⟨_, _, _, h⟩ => h.readWork_eq⟩

/-- A package with the header `1`. -/
def someWork : WorkPackage := { header := fun _ => 1 }

theorem readWork_iff_stored : ∃ before during after,
    Stores someWork [.setWorkBegin someWork, .resume .apiRequest, .setWorkEnd] before during after :=
  (readWork_iff (by decide) _).1 rfl

/-- A flag that is set although the `setWork` saw none was set while that was under way. -/
theorem Stores.flag_iff {w : WorkPackage} {cs before during after : List MinerCall}
    (h : Stores w cs before during after) (what : MinerPause) :
    (run Miner.call {} cs).pauseFlags what = true ↔ Held what during ∧ ∀ c ∈ after, c ≠ .resume what := by
  have hclear := (Miner.paused_eq_false_iff _).1 h.unpaused what
  have hbegin : ((run Miner.call {} before).call (.setWorkBegin w)).pauseFlags what = false := by
    rw [Miner.call_pauseFlags_of_about rfl, hclear]
  have hduring := Miner.run_pauseFlags_iff ((run Miner.call {} before).call (.setWorkBegin w)) what during
  rw [hbegin] at hduring
  have hafter (m : Miner) : (run Miner.call m after).pauseFlags what = true ↔
      m.pauseFlags what = true ∧ ∀ c ∈ after, c ≠ .resume what := by
    rw [Miner.run_pauseFlags_iff]
    refine or_iff_right ?_
    rintro ⟨before', c, after', hsplit, rfl, -⟩
    exact h.noPause what (by simp [hsplit])
  rw [h.split, run_append, run_cons, run_append, run_cons, hafter, Miner.call_pauseFlags_of_about rfl, hduring]
  simp

/-- **When a miner is given work although it is paused**: exactly when a `pause` fell between the
two steps of the `setWork` that stored the package, and the flag was not reset since. -/
theorem works_while_paused_iff (cs : List MinerCall) :
    ((run Miner.call {} cs).paused = true ∧ ∃ w, ¬ w.IsVoid ∧ (run Miner.call {} cs).readWork = some w) ↔
      ∃ w before during after what, ¬ w.IsVoid ∧ Stores w cs before during after ∧ Held what during ∧
        ∀ c ∈ after, c ≠ .resume what := by
  constructor
  · rintro ⟨hpaused, w, hw, hread⟩
    obtain ⟨before, during, after, hs⟩ := Miner.stores_of_readWork hw hread
    obtain ⟨what, hflag⟩ := (Miner.paused_iff _).1 hpaused
    exact ⟨w, before, during, after, what, hw, hs, (hs.flag_iff what).1 hflag⟩
  · rintro ⟨w, before, during, after, what, hw, hs, hheld⟩
    exact ⟨(Miner.paused_iff _).2 ⟨what, (hs.flag_iff what).2 hheld⟩, w, hw, hs.readWork_eq⟩

end Eth
end EtcMiner
