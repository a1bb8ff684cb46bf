/-
# Flags that are set and reset

A flag of a machine that some events set and others reset, and that all other events leave alone.
After a run it is set exactly when an event set it and none reset it afterwards, or when it was
set before and none has reset it (`latch_run_iff`).
-/

import EtcMiner.Lib.Run

namespace EtcMiner
namespace Lib

variable {σ ε : Type*} {next : σ → ε → σ} {P : σ → ε → Prop} {flag : σ → Bool} {sets resets : ε → Prop}

/-- An event sets the flag, and none resets it afterwards. -/
def Latched (sets resets : ε → Prop) (es : List ε) : Prop :=
  ∃ before e after, es = before ++ e :: after ∧ sets e ∧ ∀ e' ∈ after, ¬ resets e'

theorem latched_cons {e : ε} {es : List ε} :
    Latched sets resets (e :: es) ↔ (sets e ∧ ∀ e' ∈ es, ¬ resets e') ∨ Latched sets resets es := by
  constructor
  · rintro ⟨before, e', after, heq, hset, hafter⟩
    cases before with
    | nil =>
      obtain ⟨rfl, rfl⟩ := List.cons.inj heq
      exact .inl ⟨hset, hafter⟩
    | cons b before =>
      obtain ⟨rfl, rfl⟩ := List.cons.inj heq
      exact .inr ⟨before, e', after, rfl, hset, hafter⟩
  · rintro (⟨hset, hafter⟩ | ⟨before, e', after, rfl, hset, hafter⟩)
    · exact ⟨[], e, es, rfl, hset, hafter⟩
    · exact ⟨e :: before, e', after, rfl, hset, hafter⟩

/-- **The flag after a run.** -/
theorem latch_run_iff (hset : ∀ s e, P s e → sets e → flag (next s e) = true)
    (hreset : ∀ s e, P s e → resets e → flag (next s e) = false)
    (hkeep : ∀ s e, P s e → ¬ sets e → ¬ resets e → flag (next s e) = flag s) {s : σ} {es : List ε}
    (hP : Along next P s es) :
    flag (run next s es) = true ↔ Latched sets resets es ∨ (flag s = true ∧ ∀ e ∈ es, ¬ resets e) := by
  induction es generalizing s with
  | nil =>
    have hnone : ¬ Latched sets resets ([] : List ε) := by
      rintro ⟨before, e, after, heq, -⟩
      simp at heq
    simp [run, hnone]
  | cons e es ih =>
    rw [run_cons, ih hP.2, latched_cons, List.forall_mem_cons]
    by_cases hs : sets e
    · have hon := hset s e hP.1 hs
      have hr : ¬ resets e := fun hr => by simp [hreset s e hP.1 hr] at hon
      simp only [hon, hs, hr]
      tauto
    · by_cases hr : resets e
      · simp only [hreset s e hP.1 hr, hs, hr]
        tauto
      · rw [hkeep s e hP.1 hs hr]
        simp only [hs, hr]
        tauto

end Lib
end EtcMiner
