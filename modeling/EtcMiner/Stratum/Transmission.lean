/-
# The job a transmission dispatches

The line loop (`EtcMiner.Stratum.Receive`) handles the messages of a transmission one
after the other, and two members of the client carry the job between them:
`m_newjobprocessed` and `m_current`.  Together they are one slot, `Client.newJob`, and a
message does one of two things to it.  In the modes 0 to 2 the slot keeps the first
package that is described to it (`newJob_after`).  In mode 3 it takes every package that
is described, and a notification that is not accepted writes over the one it holds
(`newJob_after2`).

Over whole transmissions: unless an exception escapes, the package dispatched is the
first one described (`dispatched_eq_head`), or in mode 3 the last one, written over by the
notifications after it (`dispatched_eq_overwritten`).
-/

import EtcMiner.Lib.Run
import EtcMiner.Stratum.Receive
import EtcMiner.Stratum.JobMessage

namespace EtcMiner
namespace Stratum

open Common Eth Lib

/-- The job that is dispatched if the transmission ends now. -/
def Client.newJob (c : Client) : Option WorkPackage :=
  if c.newjobprocessed then some c.current else none

/-- The client at the start of a transmission. -/
def Client.begun (c : Client) (rxMessage : List Char) : Client :=
  { c with message := c.message ++ rxMessage, newjobprocessed := false }

section Transmission

variable (rt : Runtime) (now : ℤ)

/-- The client after a message, whether its handling throws or not. -/
def after (c : Client) (m : Json) : Client := final (processResponse rt now m) c

/-- No exception leaves the `try` block of the line loop. -/
def Handled (c : Client) (m : Json) : Prop :=
  thrown (processResponse rt now m) c = none ∨
    thrown (processResponse rt now m) c = some .stdException

instance (c : Client) (m : Json) : Decidable (Handled rt now c m) :=
  inferInstanceAs (Decidable (_ ∨ _))

/-- **The packages the messages describe**, each to the client it reaches. -/
def described : Client → List Json → List WorkPackage
  | _, [] => []
  | c, m :: ms => (describe rt c m).toList ++ described (after rt now c m) ms

/-- The package held in mode 3: the last one described, with what the later notifications
have written over it.  `o` is the package held at the start. -/
def overwritten : Client → List Json → Option WorkPackage → Option WorkPackage
  | _, [], o => o
  | c, m :: ms, o =>
    overwritten (after rt now c m) ms
      ((describe rt c m).or (o.map fun w => leftBy rt { c with current := w } m))

section Step

variable {c : Client} {m : Json}

theorem stratumMode_after : (after rt now c m).conn.stratumMode = c.conn.stratumMode := by
  by_cases hfree : c.conn.stratumMode ≠ ETHEREUMSTRATUM2 → c.newjobprocessed = false
  · have h := processResponse_settles rt now (m := m) hfree
    exact ends_iff_final.1 (h.imp (fun _ _ h => h.1) fun _ _ h => h.2.1)
  · obtain ⟨hmode, hflag⟩ := Classical.not_imp.1 hfree
    exact (processResponse_of_processed rt now hmode ⟨rfl, by simpa using hflag, rfl⟩).3

/-- **In the modes 0 to 2 the first package stays.** -/
theorem newJob_after (hmode : c.conn.stratumMode ≠ ETHEREUMSTRATUM2) :
    (after rt now c m).newJob = c.newJob.or (describe rt c m) := by
  cases hflag : c.newjobprocessed with
  | true =>
    obtain ⟨hcurrent, hflag', -⟩ :=
      processResponse_of_processed rt now (m := m) hmode ⟨rfl, hflag, rfl⟩
    simp [Client.newJob, after, hcurrent, hflag', hflag]
  | false =>
    have hset := processResponse_settles rt now (m := m) fun _ => hflag
    obtain ⟨-, haccepted, hrejected⟩ :=
      ends_iff_final.1 (hset.imp (fun _ _ h => h) fun _ _ h => h.2)
    cases hdesc : describe rt c m with
    | none => simp [Client.newJob, after, hrejected hdesc, hflag]
    | some w => simp [Client.newJob, after, haccepted w hdesc, hflag]

/-- **In mode 3 the last package stays**, written over by what is read of the
notifications after it. -/
theorem newJob_after2 (hmode : c.conn.stratumMode = ETHEREUMSTRATUM2) :
    (after rt now c m).newJob =
      (describe rt c m).or (c.newJob.map fun w => leftBy rt { c with current := w } m) := by
  have hset := processResponse_settles rt now (m := m) (absurd hmode)
  obtain ⟨-, haccepted, hrejected⟩ :=
    ends_iff_final.1 (hset.imp (fun _ _ h => h) fun _ _ h => h.2)
  cases hdesc : describe rt c m with
  | none =>
    have hleft := processResponse_leftBy rt now hmode hdesc
    cases hflag : c.newjobprocessed with
    | false => simp [Client.newJob, after, hrejected hdesc, hflag]
    | true =>
      have hjob : c.newJob = some c.current := if_pos hflag
      have hflag' := (hrejected hdesc).trans hflag
      rw [hjob, Client.newJob, after, if_pos hflag', hleft]
      rfl
  | some w => simp [Client.newJob, after, haccepted w hdesc]

end Step

section Run

variable {c : Client} {ms : List Json}

/-- The slot after the messages of a transmission in the modes 0 to 2. -/
theorem newJob_run (hmode : c.conn.stratumMode ≠ ETHEREUMSTRATUM2) :
    (run (after rt now) c ms).newJob = c.newJob.or (described rt now c ms).head? := by
  induction ms generalizing c with
  | nil => simp [run, described]
  | cons m ms ih =>
    have hrest := ih (c := after rt now c m) (by rwa [stratumMode_after])
    rw [newJob_after rt now hmode, Option.or_assoc] at hrest
    refine hrest.trans ?_
    cases hdesc : describe rt c m <;> simp [described, hdesc]

/-- The slot after the messages of a transmission in mode 3. -/
theorem newJob_run2 (hmode : c.conn.stratumMode = ETHEREUMSTRATUM2) :
    (run (after rt now) c ms).newJob = overwritten rt now c ms c.newJob := by
  induction ms generalizing c with
  | nil => rfl
  | cons m ms ih =>
    have hrest := ih (c := after rt now c m) (by rwa [stratumMode_after])
    rwa [newJob_after2 rt now hmode] at hrest

end Run

section Receive

variable {c : Client}

/-- A `std::exception` of the handler is swallowed. -/
theorem tryProcessResponse_of_handled {m : Json} (h : Handled rt now c m) :
    tryProcessResponse rt now m c = .ok () (after rt now c m) := by
  unfold Handled thrown at h
  unfold tryProcessResponse after final
  cases hrun : processResponse rt now m c with
  | ok u c' => rw [run_tryCatch_of_ok hrun]
  | error e c' =>
    rw [hrun] at h
    obtain rfl : e = .stdException := by simpa using h
    rw [run_tryCatch_of_error hrun]
    rfl

/-- Any other exception escapes. -/
theorem tryProcessResponse_of_not_handled {m : Json} (h : ¬ Handled rt now c m) :
    ∃ e c', tryProcessResponse rt now m c = .error e c' := by
  unfold Handled thrown at h
  unfold tryProcessResponse
  cases hrun : processResponse rt now m c with
  | ok u c' => simp [hrun] at h
  | error e c' =>
    rw [run_tryCatch_of_error hrun]
    cases e with
    | stdException => simp [hrun] at h
    | foreignException => exact ⟨_, _, rfl⟩
    | undefinedBehaviour => exact ⟨_, _, rfl⟩

/-- The line loop when no exception escapes. -/
theorem processLines_of_handled {lines : List (List Char)}
    (h : Along (after rt now) (Handled rt now) c (lines.filterMap (messageOf rt))) :
    processLines rt now lines c =
      .ok () (run (after rt now) c (lines.filterMap (messageOf rt))) := by
  induction lines generalizing c with
  | nil => rfl
  | cons line lines ih =>
    unfold processLines
    cases hmsg : messageOf rt line with
    | none =>
      rw [List.filterMap_cons_none hmsg] at h ⊢
      exact ih h
    | some m =>
      rw [List.filterMap_cons_some hmsg] at h ⊢
      exact (run_bind_of_ok (tryProcessResponse_of_handled rt now h.1) _).trans (ih h.2)

/-- The line loop when one does. -/
theorem processLines_of_not_handled {lines : List (List Char)}
    (h : ¬ Along (after rt now) (Handled rt now) c (lines.filterMap (messageOf rt))) :
    ∃ e c', processLines rt now lines c = .error e c' := by
  induction lines generalizing c with
  | nil => exact absurd trivial h
  | cons line lines ih =>
    unfold processLines
    cases hmsg : messageOf rt line with
    | none =>
      rw [List.filterMap_cons_none hmsg] at h
      exact ih h
    | some m =>
      rw [List.filterMap_cons_some hmsg] at h
      by_cases hm : Handled rt now c m
      · obtain ⟨e, c', herr⟩ := ih fun hrest => h ⟨hm, hrest⟩
        exact ⟨e, c', (run_bind_of_ok (tryProcessResponse_of_handled rt now hm) _).trans herr⟩
      · obtain ⟨e, c', herr⟩ := tryProcessResponse_of_not_handled rt now hm
        exact ⟨e, c', run_bind_of_error herr _⟩

/-- **What a transmission dispatches**: the slot after its messages, unless an exception
escapes. -/
theorem dispatched_eq_newJob (c : Client) (rxMessage : List Char) :
    dispatched rt now c rxMessage =
      if Along (after rt now) (Handled rt now) (c.begun rxMessage) (messages rt c rxMessage) then
        (run (after rt now) (c.begun rxMessage) (messages rt c rxMessage)).newJob
      else none := by
  have hreceive : receive rt now rxMessage c = (do
      processLines rt now (takeLines (c.message ++ rxMessage)).1
      modify fun c' => { c' with message := (takeLines (c.message ++ rxMessage)).2 }
      let c' ← get
      return if c'.newjobprocessed then some c'.current else none : ClientM _)
        (c.begun rxMessage) := rfl
  unfold dispatched
  rw [hreceive]
  split_ifs with h
  · rw [run_bind_of_ok (processLines_of_handled rt now h)]
    rfl
  · obtain ⟨e, c', herr⟩ := processLines_of_not_handled rt now h
    rw [run_bind_of_error herr]

variable {rxMessage : List Char}

/-- A transmission that dispatches lets no exception escape. -/
theorem handled_of_dispatched {w : WorkPackage} (hw : dispatched rt now c rxMessage = some w) :
    Along (after rt now) (Handled rt now) (c.begun rxMessage) (messages rt c rxMessage) := by
  rw [dispatched_eq_newJob] at hw
  split_ifs at hw with h
  exact h

/-- In the modes 0 to 2 the first package described is dispatched. -/
theorem dispatched_eq_head (hmode : c.conn.stratumMode ≠ ETHEREUMSTRATUM2)
    (h : Along (after rt now) (Handled rt now) (c.begun rxMessage) (messages rt c rxMessage)) :
    dispatched rt now c rxMessage =
      (described rt now (c.begun rxMessage) (messages rt c rxMessage)).head? := by
  rw [dispatched_eq_newJob, if_pos h]
  exact newJob_run rt now (c := c.begun rxMessage) hmode

/-- In mode 3 it is the last one, as the notifications after it have left it. -/
theorem dispatched_eq_overwritten (hmode : c.conn.stratumMode = ETHEREUMSTRATUM2)
    (h : Along (after rt now) (Handled rt now) (c.begun rxMessage) (messages rt c rxMessage)) :
    dispatched rt now c rxMessage =
      overwritten rt now (c.begun rxMessage) (messages rt c rxMessage) none := by
  rw [dispatched_eq_newJob, if_pos h]
  exact newJob_run2 rt now (c := c.begun rxMessage) hmode

end Receive

end Transmission

end Stratum
end EtcMiner
