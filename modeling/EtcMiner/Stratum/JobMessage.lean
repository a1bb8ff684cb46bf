/-
# Which messages are jobs

A message takes the branch of a job or it leaves the job alone
(`processResponse_of_not_isJob`).  With `describe` this says what `processResponse` does
to the job: it accepts the package the message describes (`processResponse_settles`),
it changes nothing when a job has been accepted before in the modes 0 to 2
(`processResponse_of_processed`), and in mode 3 a job that is not accepted leaves what
has been read of it (`processResponse_leftBy`).
-/

import EtcMiner.Stratum.Describe

namespace EtcMiner
namespace Stratum

open Common Eth Lib

variable (rt : Runtime) (now : ℤ) {c : Client}

theorem run_stratumMode_bind {α : Type} (f : ℕ → ClientM α) :
    (stratumMode >>= f) c = f c.conn.stratumMode c := rfl

theorem handleNotification_notify (h : Header) (m : Json) :
    handleNotification rt now h miningNotify m c =
      if c.conn.stratumMode ≠ ETHEREUMSTRATUM2 then notify rt now m c else notify2 rt now m c := by
  unfold handleNotification
  rw [run_stratumMode_bind, if_pos rfl]
  split_ifs <;> rfl

/-- The response to `eth_getWork` changes nothing by itself. -/
theorem handleResponse_five {h : Header} (hid : h.id = 5) {m jResult : Json}
    (hresult : m.get "result" .null = some jResult) :
    handleResponse rt now h m c =
      .ok (decide (c.conn.stratumMode = ETHPROXY ∧ jResult.isArray)) c := by
  unfold handleResponse
  simp only [hresult, expect, ofOption_some_bind]
  rw [run_get_bind]
  have hnot : ¬ (40 ≤ h.id ∧ h.id ≤ c.solutionSubmittedMaxId) := by
    rw [hid]
    exact fun h => absurd h.1 (by decide)
  rw [if_neg (by rw [hid]; decide), if_neg (by rw [hid]; decide), if_neg (by rw [hid]; decide),
    if_neg hnot, if_pos hid]
  rfl

theorem isJob_iff {conn : Conn} {m : Json} :
    isJob rt conn m = some true ↔ ∃ h method jResult, retrieve rt m = some h ∧
      methodOf conn.stratumMode h m = some method ∧ m.get "result" .null = some jResult ∧
      insane h m = some false ∧ conn.stratumModeConfirmed = true ∧
      (h.isNotification = true ∧ method = miningNotify ∨ h.isNotification = false ∧ h.id = 5 ∧
        conn.stratumMode = ETHPROXY ∧ jResult.isArray = true) := by
  simp only [isJob, Option.bind_eq_bind, Option.bind_eq_some_iff, Option.pure_def,
    Option.some.injEq, Bool.and_eq_true, Bool.not_eq_true']
  constructor
  · rintro ⟨h, hretrieve, method, hmethod, jResult, hresult, _, hsane, ⟨rfl, hconfirmed⟩, hbranch⟩
    refine ⟨h, method, jResult, hretrieve, hmethod, hresult, hsane, hconfirmed, ?_⟩
    cases hnote : h.isNotification <;> simp_all
  · rintro ⟨h, method, jResult, hretrieve, hmethod, hresult, hsane, hconfirmed, hbranch⟩
    refine ⟨h, hretrieve, method, hmethod, jResult, hresult, false, hsane, ⟨rfl, hconfirmed⟩, ?_⟩
    rcases hbranch with ⟨hnote, hmethod⟩ | ⟨hnote, hid, hmode, harray⟩
    · simp [hnote, hmethod]
    · simp [hnote, hid, hmode, harray]

/-- A message that takes the branch of a job. -/
theorem processResponse_of_isJob {m : Json} (hjob : isJob rt c.conn m = some true) :
    processResponse rt now m c =
      if c.conn.stratumMode ≠ ETHEREUMSTRATUM2 then notify rt now m c else notify2 rt now m c := by
  obtain ⟨h, method, jResult, hretrieve, hmethod, hresult, hsane, hconfirmed, hbranch⟩ :=
    (isJob_iff rt).1 hjob
  unfold processResponse
  simp only [hretrieve, expect, ofOption_some_bind]
  rw [run_stratumMode_bind]
  simp only [hmethod, hsane, ofOption_some_bind, Bool.false_eq_true, if_false]
  unfold dispatch
  rcases hbranch with ⟨hnote, rfl⟩ | ⟨hnote, hid, hproxy, harray⟩
  · rw [if_pos hnote, run_get_bind, if_pos hconfirmed, handleNotification_notify]
  · rw [if_neg (by simp [hnote]), run_bind_of_ok (handleResponse_five rt now hid hresult),
      run_get_bind, if_pos (by simp [hproxy, harray, hconfirmed]), handleNotification_notify]

/-- The branches of a notification other than a job. -/
theorem handleNotification_preserves (h : Header) {method : List Char}
    (hmethod : method ≠ miningNotify) (m : Json) {w : WorkPackage} {b : Bool} {mode : ℕ} :
    Preserves (Shows w b mode) (handleNotification rt now h method m) := by
  unfold handleNotification
  simp only [if_neg hmethod]
  infer_instance

/-- The responses other than the one to `eth_getWork`. -/
theorem handleResponse_of_ne_five {h : Header} (hid : h.id ≠ 5) (m : Json) {w : WorkPackage}
    {b : Bool} {mode : ℕ} (hc : Shows w b mode c) :
    Ends (handleResponse rt now h m) c (fun isJob c' => isJob = false ∧ Shows w b mode c')
      fun _ => Shows w b mode := by
  have hbranch (x : ClientM Unit) [Preserves (Shows w b mode) x] :
      Ends (do x; return false) c (fun isJob c' => isJob = false ∧ Shows w b mode c')
        fun _ => Shows w b mode := by
    rw [ends_bind]
    exact (Keeps.ends c hc).imp (fun _ _ h => ⟨rfl, h⟩) fun _ _ h => h
  unfold handleResponse
  rw [ends_bind, ends_expect]
  refine ⟨fun jResult _ => ?_, fun _ => hc⟩
  rw [ends_bind, ends_get]
  split_ifs
  · exact hbranch _
  · exact hbranch _
  · exact hbranch _
  · exact hbranch _
  · exact hbranch _
  · exact ⟨rfl, hc⟩

/-- **Any other message** leaves the job as it is. -/
theorem processResponse_of_not_isJob {m : Json} (hjob : isJob rt c.conn m ≠ some true) :
    Shows c.current c.newjobprocessed c.conn.stratumMode (final (processResponse rt now m) c) := by
  have hc : Shows c.current c.newjobprocessed c.conn.stratumMode c := ⟨rfl, rfl, rfl⟩
  refine ends_iff_final.1 ?_
  unfold processResponse
  rw [ends_bind, ends_expect]
  refine ⟨fun h hretrieve => ?_, fun _ => hc⟩
  rw [ends_bind, ends_stratumMode, ends_bind, ends_expect]
  refine ⟨fun method hmethod => ?_, fun _ => hc⟩
  rw [ends_bind, ends_expect]
  refine ⟨fun bad hsane => ?_, fun _ => hc⟩
  split_ifs with hbad
  · exact Keeps.ends c hc
  obtain rfl : bad = false := by simpa using hbad
  obtain ⟨jResult, hresult⟩ : ∃ v, m.get "result" .null = some v := by
    simp only [methodOf, Option.bind_eq_bind, Option.bind_eq_some_iff] at hmethod
    exact hmethod.imp fun v hv => hv.1
  have hnot := fun hbranch => hjob ((isJob_iff rt).2
    ⟨h, method, jResult, hretrieve, hmethod, hresult, hsane, hbranch⟩)
  unfold dispatch
  split_ifs with hnote
  · rw [ends_bind, ends_get]
    split_ifs with hconfirmed
    · have hother : method ≠ miningNotify := fun h => hnot ⟨hconfirmed, .inl ⟨hnote, h⟩⟩
      exact (handleNotification_preserves rt now h hother m).ends c hc
    · exact hc
  · rw [ends_bind]
    by_cases hid : h.id = 5
    · unfold Ends
      rw [handleResponse_five rt now hid hresult]
      change Ends _ c _ _
      rw [ends_bind, ends_get, if_neg]
      · exact hc
      · rintro ⟨hproxy, hconfirmed⟩
        obtain ⟨hmode, harray⟩ := of_decide_eq_true hproxy
        exact hnot ⟨hconfirmed, .inr ⟨by simpa using hnote, hid, hmode, harray⟩⟩
    · refine (handleResponse_of_ne_five rt now hid m hc).imp ?_ fun _ _ h => h
      rintro _ c' ⟨rfl, hc'⟩
      rw [ends_bind, ends_get, if_neg (by simp)]
      exact hc'

/-- **The package a message describes is accepted**, unless a job has been accepted before
in the modes 0 to 2. -/
theorem processResponse_settles {m : Json}
    (hfree : c.conn.stratumMode ≠ ETHEREUMSTRATUM2 → c.newjobprocessed = false) :
    Ends (processResponse rt now m) c (fun _ => Settles c (describe rt c m))
      fun _ c' => describe rt c m = none ∧ Settles c (describe rt c m) c' := by
  by_cases hjob : isJob rt c.conn m = some true
  · unfold Ends
    rw [processResponse_of_isJob rt now hjob]
    split_ifs with hmode
    · exact notify_settles rt now (hfree hmode) hjob hmode
    · exact notify2_settles rt now hjob (not_not.1 hmode)
  · have hnone : describe rt c m = none := by
      unfold describe
      cases c.session with
      | none => rfl
      | some s => exact if_neg hjob
    have hshows := processResponse_of_not_isJob rt now hjob
    rw [hnone]
    refine (ends_iff_final.2 hshows).imp ?_ ?_ <;> rintro _ c' h
    · exact ⟨h.3, fun _ hw => (nomatch hw), fun _ => h.2⟩
    · exact ⟨rfl, h.3, fun _ hw => (nomatch hw), fun _ => h.2⟩

/-- Once a job has been accepted in the modes 0 to 2, nothing changes it. -/
theorem processResponse_of_processed {m : Json} {w : WorkPackage} {mode : ℕ}
    (hmode : mode ≠ ETHEREUMSTRATUM2) (hc : Shows w true mode c) :
    Shows w true mode (final (processResponse rt now m) c) := by
  obtain ⟨rfl, hflag, rfl⟩ := id hc
  by_cases hjob : isJob rt c.conn m = some true
  · have hrun : notify rt now m c = .ok () c := by
      unfold notify
      rw [run_get_bind, if_pos (.inr hflag)]
      rfl
    rw [final, processResponse_of_isJob rt now hjob, if_pos hmode, hrun]
    exact hc
  · have hshows := processResponse_of_not_isJob rt now hjob
    rwa [hflag] at hshows

/-- What a message that is not accepted leaves of the job in mode 3. -/
theorem processResponse_leftBy {m : Json} (hmode : c.conn.stratumMode = ETHEREUMSTRATUM2)
    (hnone : describe rt c m = none) :
    (final (processResponse rt now m) c).current = leftBy rt c m := by
  by_cases hjob : isJob rt c.conn m = some true
  · rw [final, processResponse_of_isJob rt now hjob, if_neg (not_not.2 hmode), ← final]
    exact notify2_leftBy rt now hjob hmode hnone
  · rw [(processResponse_of_not_isJob rt now hjob).1, leftBy]
    cases c.session with
    | none => rfl
    | some s => exact (if_neg hjob).symm

end Stratum
end EtcMiner
